import GeoDispatch.Proofs.Fleet.Search
import GeoDispatch.Proofs.Hex.Disk
import GeoDispatch.Proofs.Matching.Greedy
import GeoDispatch.Proofs.Matching.Score

/-! # Who serves whom in a batch

Every request of a batch is paired with the drivers that are found near its pickup and whose
distance is known.  Its best driver is the nearest of them, the least identifier among those
equally near (`MatcherSettings.Best`).  When the requests have distinct identifiers, each
driver who is the best of some request goes to the nearest of these requests, the first of
those equally near, and nothing else is assigned
(`MatcherSettings.best_drivers_serve_nearest_request`).

The candidates of a batch stand in the order of the requests and then of the drivers, which
is how the greedy pass breaks ties; as a `Lineup` they are named by the position of the
request and the candidate itself (`MatcherSettings.lineup`).
-/

namespace GeoDispatch

namespace MatcherSettings

variable {C : Type} [DecidableEq C] [Hashable C] (s : MatcherSettings)

/-- A driver is found near the pickup of a request, `n` steps away. -/
def Visible (x : DriverIndex C) (r : RideRequest) (d : String) (n : Nat) : Prop :=
  ∃ o c, x.grid.cellOf r.pickup = .ok o ∧ (d, c) ∈ (x.search r.pickup s.rings).found ∧
    (x.grid.tiling.steps? o c).map UInt32.toNat = some n

/-- A driver is the nearest visible one, the least identifier among the nearest. -/
def Best (x : DriverIndex C) (r : RideRequest) (d : String) (n : Nat) : Prop :=
  s.Visible x r d n ∧ ∀ d' n', s.Visible x r d' n' → n < n' ∨ n = n' ∧ d ≤ d'

/-- A driver for the request at a position, so many steps away. -/
@[ext]
structure Pairing (rs : List RideRequest) where
  position : Fin rs.length
  driver : String
  steps : Nat

/-- A pairing is of a request with its best driver. -/
def Pairing.IsBest {rs : List RideRequest} (s : MatcherSettings) (x : DriverIndex C)
    (p : Pairing rs) : Prop :=
  s.Best x rs[p.position] p.driver p.steps

/-- Some pairings are what a batch is served with: their results are those of the batch, each
driver who is the best of some request is paired once, with the request that is nearest and
then earliest among those, no one else is paired, and the pairings stand in the order of the
steps and then of the requests. -/
structure Serves (s : MatcherSettings) (x : DriverIndex C) {rs : List RideRequest}
    (served : List (Pairing rs)) : Prop where
  results_eq : (s.matchRequests x rs).results = served.map fun p =>
    ⟨rs[p.position].id, p.driver, .ofFloat (1 / (1 + Float.ofNat p.steps))⟩
  mem_iff : ∀ p, p ∈ served ↔ p.IsBest s x ∧
    ∀ q : Pairing rs, q.IsBest s x → q.driver = p.driver →
      p.steps < q.steps ∨ p.steps = q.steps ∧ p.position ≤ q.position
  ordered : served.Pairwise fun p q =>
    p.steps < q.steps ∨ p.steps = q.steps ∧ p.position < q.position
  existsUnique : ∀ q : Pairing rs, q.IsBest s x → ∃! p, p ∈ served ∧ p.driver = q.driver

variable {s} {t : Tiling C} {x y : DriverIndex C} {r : RideRequest}

/-! ## The candidates for one request -/

theorem candidates_offersFor_of_ok (h : x.Sound t) {o : C} (inside : t.cellOf r.pickup = .ok o) :
    (s.offersFor x r).candidates =
      (x.search r.pickup s.rings).found.filterMap (s.candidate? t r o) := by
  rw [offersFor, h.cellOf_eq, inside]
  simp only [h.tiling_eq]

theorem candidates_offersFor_of_error (h : x.Sound t) {e : GeoError}
    (out : t.cellOf r.pickup = .error e) : (s.offersFor x r).candidates = [] := by
  rw [offersFor, h.cellOf_eq, out]

theorem mem_offersFor (h : x.Sound t) {c : Candidate} :
    c ∈ (s.offersFor x r).candidates ↔ ∃ o near, t.cellOf r.pickup = .ok o ∧
      near ∈ (x.search r.pickup s.rings).found ∧ s.candidate? t r o near = some c := by
  cases place : t.cellOf r.pickup with
  | error e => simp [candidates_offersFor_of_error h place]
  | ok o =>
    rw [candidates_offersFor_of_ok h place, List.mem_filterMap]
    constructor
    · rintro ⟨near, hnear, hc⟩
      exact ⟨o, near, rfl, hnear, hc⟩
    · rintro ⟨o', near, same, hnear, hc⟩
      cases same
      exact ⟨near, hnear, hc⟩

omit [DecidableEq C] [Hashable C] in
theorem candidate?_eq_some {o : C} {near : String × C} {c : Candidate}
    (h : s.candidate? t r o near = some c) :
    c.driver = near.1 ∧ c.request = r.id ∧ c.score = score c.steps ∧ c.steps < 2 ^ 32 ∧
      (t.steps? o near.2).map UInt32.toNat = some c.steps := by
  obtain ⟨k, hk, rfl⟩ := Option.map_eq_some_iff.mp h
  exact ⟨rfl, rfl, rfl, k.toNat_lt, by rw [hk]; rfl⟩

theorem request_of_mem_offersFor (h : x.Sound t) {c : Candidate}
    (hc : c ∈ (s.offersFor x r).candidates) : c.request = r.id := by
  obtain ⟨o, near, -, -, hcand⟩ := (mem_offersFor h).mp hc
  exact (candidate?_eq_some hcand).2.1

theorem score_of_mem_offersFor (h : x.Sound t) {c : Candidate}
    (hc : c ∈ (s.offersFor x r).candidates) : c.score = score c.steps ∧ c.steps < 2 ^ 32 := by
  obtain ⟨o, near, -, -, hcand⟩ := (mem_offersFor h).mp hc
  obtain ⟨-, -, hscore, hsteps, -⟩ := candidate?_eq_some hcand
  exact ⟨hscore, hsteps⟩

/-- The candidates of a request are its visible drivers. -/
theorem exists_mem_offersFor (h : x.Sound t) {d : String} {n : Nat} :
    (∃ c ∈ (s.offersFor x r).candidates, c.driver = d ∧ c.steps = n) ↔ s.Visible x r d n := by
  unfold Visible
  rw [h.cellOf_eq, h.tiling_eq]
  constructor
  · rintro ⟨c, hc, rfl, rfl⟩
    obtain ⟨o, near, inside, hnear, hcand⟩ := (mem_offersFor h).mp hc
    obtain ⟨hdriver, -, -, -, hsteps⟩ := candidate?_eq_some hcand
    exact ⟨o, near.2, inside, hdriver ▸ hnear, hsteps⟩
  · rintro ⟨o, c, inside, hfound, hsteps⟩
    obtain ⟨cand, hcand⟩ : ∃ cand, s.candidate? t r o (d, c) = some cand := by
      obtain ⟨k, hk, -⟩ := Option.map_eq_some_iff.mp hsteps
      rw [candidate?, hk]
      exact ⟨_, rfl⟩
    obtain ⟨hdriver, -, -, -, hcount⟩ := candidate?_eq_some hcand
    have hmem := (mem_offersFor h).mpr ⟨o, (d, c), inside, hfound, hcand⟩
    exact ⟨cand, hmem, hdriver, Option.some.inj (hcount.symm.trans hsteps)⟩

/-- The candidates of a request come in the order of their drivers. -/
theorem offersFor_pairwise (distinct : ∀ c k, (t.disk c k).Nodup) (h : x.Sound t) :
    (s.offersFor x r).candidates.Pairwise fun c c' => c.driver < c'.driver := by
  cases place : t.cellOf r.pickup with
  | error e =>
    rw [candidates_offersFor_of_error h place]
    exact .nil
  | ok o =>
    rw [candidates_offersFor_of_ok h place, List.pairwise_filterMap]
    refine (h.found_pairwise distinct s.rings).imp ?_
    intro near near' hlt c hc c' hc'
    rw [(candidate?_eq_some hc).1, (candidate?_eq_some hc').1]
    exact hlt

/-- A driver is a candidate of a request at most once. -/
theorem eq_of_mem_offersFor (distinct : ∀ c k, (t.disk c k).Nodup) (h : x.Sound t)
    {c c' : Candidate} (hc : c ∈ (s.offersFor x r).candidates)
    (hc' : c' ∈ (s.offersFor x r).candidates) (same : c.driver = c'.driver) : c = c' := by
  have hnodup : ((s.offersFor x r).candidates.map Candidate.driver).Nodup :=
    List.pairwise_map.mpr ((offersFor_pairwise distinct h).imp ne_of_lt)
  exact List.inj_on_of_nodup_map hnodup hc hc' same

/-! ## The candidates of a batch -/

/-- A search for candidates leaves the index in a sound state with the same roster. -/
theorem index_offersFor (h : x.Sound t) :
    (s.offersFor x r).index.Sound t ∧ (s.offersFor x r).index.roster = x.roster := by
  unfold offersFor
  split
  · exact ⟨h, rfl⟩
  · exact ⟨h.search r.pickup s.rings, x.roster_search r.pickup s.rings⟩

theorem candidates_offersFor_congr (hx : x.Sound t) (hy : y.Sound t)
    (same : y.roster = x.roster) :
    (s.offersFor y r).candidates = (s.offersFor x r).candidates := by
  cases place : t.cellOf r.pickup with
  | error e =>
    rw [candidates_offersFor_of_error hx place, candidates_offersFor_of_error hy place]
  | ok o =>
    rw [candidates_offersFor_of_ok hx place, candidates_offersFor_of_ok hy place,
      hx.found_of_ok place, hy.found_of_ok place, same]

/-- The requests do not disturb each other. -/
theorem candidates_offers (h : x.Sound t) (rs : List RideRequest) :
    (s.offers x rs).candidates = rs.flatMap fun r => (s.offersFor x r).candidates := by
  -- each search changes the cache, so the induction is over all states with this roster
  have steady : ∀ y : DriverIndex C, y.Sound t → y.roster = x.roster →
      (s.offers y rs).candidates = rs.flatMap fun r => (s.offersFor x r).candidates := by
    induction rs with
    | nil => exact fun _ _ _ => rfl
    | cons r rs ih =>
      intro y hy same
      obtain ⟨hnext, hroster⟩ := index_offersFor (s := s) (r := r) hy
      rw [offers, List.flatMap_cons, ← candidates_offersFor_congr h hy same,
        ← ih _ hnext (hroster.trans same)]
  exact steady x h rfl

/-- The candidates of a batch in their order, each with the position of its request. -/
def named (s : MatcherSettings) (x : DriverIndex C) (rs : List RideRequest) :
    List (Fin rs.length × Candidate) :=
  (List.finRange rs.length).flatMap fun i =>
    (s.offersFor x rs[i]).candidates.map fun c => (i, c)

theorem map_snd_named (h : x.Sound t) (rs : List RideRequest) :
    (s.named x rs).map Prod.snd = (s.offers x rs).candidates := by
  have hrs : (List.finRange rs.length).map rs.get = rs := List.map_get_finRange rs
  rw [candidates_offers h, named]
  conv_rhs => rw [← hrs]
  simp only [List.map_flatMap, List.flatMap_map, List.map_map, Function.comp_def, List.map_id']
  rfl

theorem mem_named {rs : List RideRequest} {i : Fin rs.length} {c : Candidate} :
    (i, c) ∈ s.named x rs ↔ c ∈ (s.offersFor x rs[i]).candidates := by
  rw [named, List.mem_flatMap]
  constructor
  · rintro ⟨j, -, hmem⟩
    obtain ⟨c', hc', he⟩ := List.mem_map.mp hmem
    cases he
    exact hc'
  · intro hc
    exact ⟨i, List.mem_finRange i, List.mem_map.mpr ⟨c, hc, rfl⟩⟩

/-- The candidates of a batch, named by the position of their request and themselves. -/
def lineup (s : MatcherSettings) (distinct : ∀ c k, (t.disk c k).Nodup) (h : x.Sound t)
    (rs : List RideRequest) : Lineup (Fin rs.length × Candidate) where
  names := s.named x rs
  candidate := Prod.snd
  Before a b := a.1 < b.1 ∨ a.1 = b.1 ∧ a.2.driver < b.2.driver
  asymm := by
    rintro a b (hlt | ⟨same, hlt⟩) (hlt' | ⟨same', hlt'⟩)
    · exact Nat.lt_asymm hlt hlt'
    · rw [same'] at hlt
      exact Nat.lt_irrefl _ hlt
    · rw [same] at hlt'
      exact Nat.lt_irrefl _ hlt'
    · exact lt_asymm hlt hlt'
  sorted := by
    rw [named]
    refine List.pairwise_flatMap.mpr ⟨fun i _ => ?_, ?_⟩
    · refine List.pairwise_map.mpr ((offersFor_pairwise distinct h).imp ?_)
      exact fun hlt => .inr ⟨rfl, hlt⟩
    · refine (List.pairwise_lt_finRange rs.length).imp ?_
      rintro i j hlt a ha b hb
      obtain ⟨c, -, rfl⟩ := List.mem_map.mp ha
      obtain ⟨c', -, rfl⟩ := List.mem_map.mp hb
      exact .inl hlt

section Lineup

variable (distinct : ∀ c k, (t.disk c k).Nodup) (h : x.Sound t) (rs : List RideRequest)

theorem candidates_lineup :
    (s.lineup distinct h rs).candidates = (s.offers x rs).candidates :=
  map_snd_named h rs

variable {rs}

theorem mem_names_lineup {i : Fin rs.length} {c : Candidate} :
    (i, c) ∈ (s.lineup distinct h rs).names ↔ c ∈ (s.offersFor x rs[i]).candidates :=
  mem_named

/-- In the pass, fewer steps go first, then the position of the request, then the driver. -/
theorem outranks_lineup {i j : Fin rs.length} {c c' : Candidate}
    (hc : c ∈ (s.offersFor x rs[i]).candidates) (hc' : c' ∈ (s.offersFor x rs[j]).candidates) :
    (s.lineup distinct h rs).Outranks (i, c) (j, c') ↔
      c.steps < c'.steps ∨ c.steps = c'.steps ∧ (i < j ∨ i = j ∧ c.driver < c'.driver) := by
  obtain ⟨hscore, hsteps⟩ := score_of_mem_offersFor h hc
  obtain ⟨hscore', hsteps'⟩ := score_of_mem_offersFor h hc'
  change c'.score.rank < c.score.rank ∨ c.score = c'.score ∧ _ ↔ _
  rw [hscore, hscore', rank_score_lt_iff hsteps hsteps', score_inj hsteps hsteps']
  rfl

omit [DecidableEq C] [Hashable C] in
theorem position_unique (ids : (rs.map RideRequest.id).Nodup) {i j : Fin rs.length}
    (same : rs[i].id = rs[j].id) : i = j := by
  have hmap : (List.finRange rs.length).map (fun i => rs[i].id) = rs.map RideRequest.id :=
    List.map_map.symm.trans (congrArg _ (List.map_get_finRange rs))
  rw [← hmap] at ids
  exact List.inj_on_of_nodup_map ids (List.mem_finRange i) (List.mem_finRange j) same

theorem decides_lineup (ids : (rs.map RideRequest.id).Nodup) {i : Fin rs.length}
    {c : Candidate} :
    (s.lineup distinct h rs).Decides (i, c) ↔
      c ∈ (s.offersFor x rs[i]).candidates ∧ s.Best x rs[i] c.driver c.steps := by
  rw [Lineup.Decides, mem_names_lineup]
  refine and_congr_right fun hc => ?_
  constructor
  · intro first
    refine ⟨(exists_mem_offersFor h).mp ⟨c, hc, rfl, rfl⟩, fun d' n' visible => ?_⟩
    obtain ⟨c', hc', rfl, rfl⟩ := (exists_mem_offersFor h).mpr visible
    have same : c'.request = c.request :=
      (request_of_mem_offersFor h hc').trans (request_of_mem_offersFor h hc).symm
    rcases first (i, c') ((mem_names_lineup distinct h).mpr hc') same with he | hlt
    · cases he
      exact .inr ⟨rfl, le_refl _⟩
    · rcases (outranks_lineup distinct h hc hc').mp hlt with hlt | ⟨hsteps, hlt | ⟨-, hlt⟩⟩
      · exact .inl hlt
      · exact absurd hlt (Nat.lt_irrefl _)
      · exact .inr ⟨hsteps, le_of_lt hlt⟩
  · rintro ⟨-, least⟩ ⟨j, c'⟩ hmem same
    have hc' := (mem_names_lineup distinct h).mp hmem
    -- the identifiers are distinct, so that both candidates are of the same request
    obtain rfl : j = i := position_unique ids
      ((request_of_mem_offersFor h hc').symm.trans (same.trans (request_of_mem_offersFor h hc)))
    rw [outranks_lineup distinct h hc hc']
    rcases least _ _ ((exists_mem_offersFor h).mp ⟨c', hc', rfl, rfl⟩) with hlt | ⟨hsteps, hle⟩
    · exact .inr (.inl hlt)
    · rcases eq_or_lt_of_le hle with he | hlt
      · exact .inl (congrArg _ (eq_of_mem_offersFor distinct h hc' hc he.symm))
      · exact .inr (.inr ⟨hsteps, .inr ⟨rfl, hlt⟩⟩)

theorem wins_lineup (ids : (rs.map RideRequest.id).Nodup) {i : Fin rs.length}
    {c : Candidate} :
    (s.lineup distinct h rs).Wins (i, c) ↔
      c ∈ (s.offersFor x rs[i]).candidates ∧ s.Best x rs[i] c.driver c.steps ∧
      ∀ q : Pairing rs, q.IsBest s x → q.driver = c.driver →
        c.steps < q.steps ∨ c.steps = q.steps ∧ i ≤ q.position := by
  rw [Lineup.Wins, decides_lineup distinct h ids, and_assoc]
  refine and_congr_right fun hc => and_congr_right fun _ => ?_
  constructor
  · rintro wins ⟨j, d, n⟩ best rfl
    obtain ⟨c', hc', hdriver, rfl⟩ := (exists_mem_offersFor h).mpr best.1
    have decides := (decides_lineup distinct h ids).mpr ⟨hc', hdriver ▸ best⟩
    rcases wins (j, c') decides hdriver with he | hlt
    · cases he
      exact .inr ⟨rfl, Nat.le_refl _⟩
    · rcases (outranks_lineup distinct h hc hc').mp hlt with hlt | ⟨hsteps, hlt | ⟨rfl, -⟩⟩
      · exact .inl hlt
      · exact .inr ⟨hsteps, Nat.le_of_lt hlt⟩
      · exact .inr ⟨hsteps, Nat.le_refl _⟩
  · rintro nearest ⟨j, c'⟩ decides same
    obtain ⟨hc', best⟩ := (decides_lineup distinct h ids).mp decides
    rw [outranks_lineup distinct h hc hc']
    rcases nearest ⟨j, c'.driver, c'.steps⟩ best same with hlt | ⟨hsteps, hle⟩
    · exact .inr (.inl hlt)
    · rcases Nat.eq_or_lt_of_le hle with he | hlt
      · obtain rfl := Fin.ext he
        exact .inl (congrArg _ (eq_of_mem_offersFor distinct h hc' hc same))
      · exact .inr (.inr ⟨hsteps, .inl hlt⟩)

/-! ## The matches of a batch -/

/-- The pairing of a named candidate. -/
def pairing (a : Fin rs.length × Candidate) : Pairing rs := ⟨a.1, a.2.driver, a.2.steps⟩

theorem results_lineup :
    (s.matchRequests x rs).results = ((s.lineup distinct h rs).accepted.map pairing).map
      fun p => ⟨rs[p.position].id, p.driver, .ofFloat (1 / (1 + Float.ofNat p.steps))⟩ := by
  have hassign : Candidate.assign (s.offers x rs).candidates =
      (s.lineup distinct h rs).accepted.map Prod.snd := by
    rw [← candidates_lineup distinct h rs]
    exact Lineup.assign_candidates
  rw [matchRequests]
  simp only [hassign, List.map_map]
  refine List.map_congr_left ?_
  rintro ⟨i, c⟩ hmem
  have hc := (mem_names_lineup distinct h).mp (Lineup.mem_accepted.mp hmem).1.1
  simp only [Function.comp_apply, Candidate.toMatch, pairing, request_of_mem_offersFor h hc,
    (score_of_mem_offersFor h hc).1]
  rfl

theorem mem_map_pairing (ids : (rs.map RideRequest.id).Nodup) {p : Pairing rs} :
    p ∈ (s.lineup distinct h rs).accepted.map pairing ↔
      p.IsBest s x ∧ ∀ q : Pairing rs, q.IsBest s x → q.driver = p.driver →
        p.steps < q.steps ∨ p.steps = q.steps ∧ p.position ≤ q.position := by
  rw [List.mem_map]
  constructor
  · rintro ⟨⟨i, c⟩, hmem, rfl⟩
    exact ((wins_lineup distinct h ids).mp (Lineup.mem_accepted.mp hmem)).2
  · obtain ⟨i, d, n⟩ := p
    rintro ⟨best, nearest⟩
    obtain ⟨c, hc, rfl, rfl⟩ := (exists_mem_offersFor h).mpr best.1
    refine ⟨(i, c), Lineup.mem_accepted.mpr ?_, rfl⟩
    exact (wins_lineup distinct h ids).mpr ⟨hc, best, nearest⟩

theorem pairwise_map_pairing (ids : (rs.map RideRequest.id).Nodup) :
    ((s.lineup distinct h rs).accepted.map pairing).Pairwise fun p q =>
      p.steps < q.steps ∨ p.steps = q.steps ∧ p.position < q.position := by
  refine List.pairwise_map.mpr (Lineup.pairwise_accepted.imp_of_mem ?_)
  rintro ⟨i, c⟩ ⟨j, c'⟩ hmem hmem' outranks
  obtain ⟨hc, best, -⟩ := (wins_lineup distinct h ids).mp (Lineup.mem_accepted.mp hmem)
  obtain ⟨hc', best', -⟩ := (wins_lineup distinct h ids).mp (Lineup.mem_accepted.mp hmem')
  rcases (outranks_lineup distinct h hc hc').mp outranks with hlt | ⟨hsteps, hlt | ⟨rfl, hlt⟩⟩
  · exact .inl hlt
  · exact .inr ⟨hsteps, hlt⟩
  -- a request has one best driver
  · rcases best'.2 _ _ best.1 with hless | ⟨-, hle⟩
    · omega
    · exact absurd hlt (not_lt_of_ge hle)

theorem existsUnique_map_pairing (ids : (rs.map RideRequest.id).Nodup) {q : Pairing rs}
    (best : q.IsBest s x) :
    ∃! p, p ∈ (s.lineup distinct h rs).accepted.map pairing ∧ p.driver = q.driver := by
  obtain ⟨i, d, n⟩ := q
  obtain ⟨c, hc, rfl, rfl⟩ := (exists_mem_offersFor h).mpr best.1
  have decides := (decides_lineup distinct h ids).mpr ⟨hc, best⟩
  obtain ⟨a, ⟨ha, hdriver⟩, unique⟩ := Lineup.existsUnique_accepted decides
  refine ⟨pairing a, ⟨List.mem_map_of_mem ha, hdriver⟩, ?_⟩
  rintro p ⟨hp, same⟩
  obtain ⟨b, hb, rfl⟩ := List.mem_map.mp hp
  rw [unique b ⟨hb, same⟩]

end Lineup

/-- The index comes out of a batch in a state it could have come to by searches. -/
theorem reachable_offers (h : DriverIndex.Reachable t x) (rs : List RideRequest) :
    DriverIndex.Reachable t (s.offers x rs).index := by
  induction rs generalizing x with
  | nil => exact h
  | cons r rs ih =>
    refine ih ?_
    unfold offersFor
    split
    · exact h
    · exact .search r.pickup s.rings h

theorem reachable_matchRequests (h : DriverIndex.Reachable t x) (rs : List RideRequest) :
    DriverIndex.Reachable t (s.matchRequests x rs).index :=
  reachable_offers h rs

/-- **The best drivers serve the nearest requests.**  In every reachable state of the index, for
requests with distinct identifiers: each driver who is the best of some request has exactly
one result, for the nearest of the requests whose best driver it is, the first of those
equally near; there are no other results.  The score is the double `1 / (1 + n)` for `n`
steps, and the results are ordered by steps and then by the position of the request. -/
theorem best_drivers_serve_nearest_request (distinct : ∀ c k, (t.disk c k).Nodup)
    (reachable : DriverIndex.Reachable t x) (s : MatcherSettings) (rs : List RideRequest)
    (ids : (rs.map RideRequest.id).Nodup) :
    ∃ served : List (Pairing rs), Serves s x served := by
  have h := reachable.sound
  exact ⟨(s.lineup distinct h rs).accepted.map pairing,
    { results_eq := results_lineup distinct h
      mem_iff := fun _ => mem_map_pairing distinct h ids
      ordered := pairwise_map_pairing distinct h ids
      existsUnique := fun _ => existsUnique_map_pairing distinct h ids }⟩

theorem visible_iff_of_alone (h : x.Sound t) {o : C} {d₀ : String}
    (inside : t.cellOf r.pickup = .ok o) (here : o ∈ t.disk o (min s.rings maxRings))
    (still : t.steps? o o = some 0) (alone : ∀ d, x.cellOf? d = if d = d₀ then some o else none)
    {d : String} {n : Nat} : s.Visible x r d n ↔ d = d₀ ∧ n = 0 := by
  unfold Visible
  rw [h.cellOf_eq, h.tiling_eq, inside]
  constructor
  · rintro ⟨o', c, same, hfound, hsteps⟩
    cases same
    obtain ⟨-, -, hcell, -⟩ := h.mem_found.mp hfound
    rw [alone d] at hcell
    split at hcell
    · rename_i hd
      cases hcell
      rw [still] at hsteps
      cases hsteps
      exact ⟨hd, rfl⟩
    · cases hcell
  · rintro ⟨rfl, rfl⟩
    refine ⟨o, o, rfl, h.mem_found.mpr ⟨o, inside, ?_, here⟩, ?_⟩
    · rw [alone, if_pos rfl]
    · rw [still]
      rfl

/-- The only driver of all is the best one for a pickup in the same cell, no steps away. -/
theorem best_iff_of_alone (h : x.Sound t) {o : C} {d₀ : String}
    (inside : t.cellOf r.pickup = .ok o) (here : o ∈ t.disk o (min s.rings maxRings))
    (still : t.steps? o o = some 0) (alone : ∀ d, x.cellOf? d = if d = d₀ then some o else none)
    {d : String} {n : Nat} : s.Best x r d n ↔ d = d₀ ∧ n = 0 := by
  have visible {d : String} {n : Nat} : s.Visible x r d n ↔ d = d₀ ∧ n = 0 :=
    visible_iff_of_alone h inside here still alone
  rw [Best, visible]
  refine and_iff_left_of_imp ?_
  rintro ⟨rfl, rfl⟩ d' n' hmem
  obtain ⟨rfl, rfl⟩ := visible.mp hmem
  exact .inr ⟨rfl, le_refl _⟩

/-- When all requests have the same best driver, no steps away, the first one is served. -/
theorem Serves.results_of_same_best {d₀ : String} {rs : List RideRequest}
    {served : List (Pairing (r :: rs))} (h : s.Serves x served)
    (best : ∀ p : Pairing (r :: rs), p.IsBest s x ↔ p.driver = d₀ ∧ p.steps = 0) :
    (s.matchRequests x (r :: rs)).results = [⟨r.id, d₀, .ofFloat 1⟩] := by
  let first : Pairing (r :: rs) := ⟨⟨0, Nat.succ_pos _⟩, d₀, 0⟩
  have mem (p : Pairing (r :: rs)) : p ∈ served ↔ p = first := by
    rw [h.mem_iff]
    constructor
    · rintro ⟨hbest, nearest⟩
      obtain ⟨hdriver, hsteps⟩ := (best p).mp hbest
      rcases nearest first ((best first).mpr ⟨rfl, rfl⟩) hdriver.symm with hlt | ⟨-, hle⟩
      · exact absurd hlt (Nat.not_lt_zero _)
      · exact Pairing.ext (Fin.ext (Nat.le_zero.mp hle)) hdriver hsteps
    · rintro rfl
      refine ⟨(best first).mpr ⟨rfl, rfl⟩, fun q hbest _ => .inr ⟨?_, Nat.zero_le _⟩⟩
      exact ((best q).mp hbest).2.symm
  have alone : served = [first] := by
    cases served with
    | nil => exact absurd ((mem first).mpr rfl) List.not_mem_nil
    | cons p rest =>
      obtain rfl := (mem p).mp List.mem_cons_self
      cases rest with
      | nil => rfl
      | cons q rest =>
        obtain rfl := (mem q).mp (List.mem_cons_of_mem _ List.mem_cons_self)
        rcases List.rel_of_pairwise_cons h.ordered List.mem_cons_self with hlt | ⟨-, hlt⟩
        · exact absurd hlt (Nat.lt_irrefl _)
        · exact absurd hlt (Nat.lt_irrefl _)
  have unit : (1 : Float) / (1 + Float.ofNat 0) = 1 := by decide
  rw [h.results_eq, alone]
  change [Match.mk r.id d₀ (.ofFloat (1 / (1 + Float.ofNat 0)))] = _
  rw [unit]

/-- When the only driver is at the place of all requests, the first one is served. -/
theorem Serves.results_at_one_place {g : GridSettings} {p : Point Float} {d : String}
    {rs : List RideRequest} (valid : p.isValid) (there : ∀ q ∈ r :: rs, q.pickup = p)
    {served : List (Pairing (r :: rs))}
    (h : s.Serves ((DriverIndex.ofGrid (Grid.hexagonal g)).apply (.update d p)).1 served) :
    (s.matchRequests ((DriverIndex.ofGrid (Grid.hexagonal g)).apply (.update d p)).1
      (r :: rs)).results = [⟨r.id, d, .ofFloat 1⟩] := by
  have sound := (DriverIndex.sound_ofGrid g (.hexagonal g.resolution)).apply (.update d p)
  have inside : (Tiling.hexagonal g.resolution).cellOf p = .ok (Cell.locate g.resolution p) := by
    rw [Tiling.cellOf, if_pos valid]
    rfl
  have still : (Tiling.hexagonal g.resolution).steps? (Cell.locate g.resolution p)
      (Cell.locate g.resolution p) = some 0 := by
    change ((Cell.locate g.resolution p).steps? (Cell.locate g.resolution p)).bind _ = some 0
    rw [Cell.steps?_self]
    rfl
  refine h.results_of_same_best fun q => ?_
  refine best_iff_of_alone sound ?_ (Cell.mem_disk_self _ _) still fun d' => ?_
  · rw [there (r :: rs)[q.position] (List.getElem_mem _)]
    exact inside
  · have moved := DriverIndex.cellOf?_update (x := .ofGrid (Grid.hexagonal g)) inside d d'
    have absent : (DriverIndex.ofGrid (Grid.hexagonal g)).cellOf? d' = none :=
      Roster.cellOf?_empty d'
    rw [absent] at moved
    exact moved

/-- Of two requests at the place of the only driver the first one is served. -/
theorem first_of_two_requests_is_served :
    (matchRequests {} ((DriverIndex.ofGrid (Grid.hexagonal {})).apply (.update "d" ⟨0, 0⟩)).1
      [⟨"r1", ⟨0, 0⟩⟩, ⟨"r2", ⟨0, 0⟩⟩]).results = [⟨"r1", "d", .ofFloat 1⟩] := by
  obtain ⟨served, h⟩ := best_drivers_serve_nearest_request (t := .hexagonal .neighborhood)
    Cell.nodup_disk (.apply (.update "d" ⟨0, 0⟩) (.start {})) {}
    [⟨"r1", ⟨0, 0⟩⟩, ⟨"r2", ⟨0, 0⟩⟩] (by decide)
  exact h.results_at_one_place (by decide) (by simp)

end MatcherSettings

end GeoDispatch
