import GeoDispatch.Proofs.Fleet.History
import GeoDispatch.Proofs.Hex.Disk
import GeoDispatch.Proofs.Text.ByteOrder

/-! # Drivers near a pickup

A search is the one question to an index that changes it: the disk that it asked for goes into
the cache.  The roster stays what it was, and what events make of a roster does not depend on
the cache (`DriverIndex.Sound.roster_after_congr`).  Sound indices with the same roster answer
every question alike (`DriverIndex.AnswersAlike`), so no search can be noticed later, whatever
the cache held before it.

What a search finds is therefore said without the cache
(`DriverIndex.search_finds_drivers_in_disk`): every driver whose cell lies in the disk around the
pickup's cell, once, in the order of the bytes of the identifiers.
-/

namespace GeoDispatch

namespace DriverIndex

variable {C : Type} [DecidableEq C] [Hashable C]

/-- Two indices that give the same answer to every question. -/
structure AnswersAlike (x y : DriverIndex C) : Prop where
  cellOf?_eq : ∀ d, x.cellOf? d = y.cellOf? d
  size_eq : x.size = y.size
  driversIn_eq : ∀ c, x.driversIn c = y.driversIn c
  counts_eq : x.counts = y.counts
  found_eq : ∀ pickup k, (x.search pickup k).found = (y.search pickup k).found
  nearby_eq : ∀ pickup k, x.nearby pickup k = y.nearby pickup k

variable {t : Tiling C} {x y : DriverIndex C}

namespace Sound

theorem answersAlike (hx : x.Sound t) (hy : y.Sound t) (same : x.roster = y.roster) :
    x.AnswersAlike y where
  cellOf?_eq d := congrArg (·.cellOf? d) same
  size_eq := congrArg Roster.size same
  driversIn_eq c := congrArg (fun r => (r.driversOf c).mergeSort fun a b => a ≤ b) same
  counts_eq := congrArg Roster.counts same
  found_eq := hx.found_congr hy fun d => congrArg (·.cellOf? d) same
  nearby_eq := hx.nearby_congr hy fun d => congrArg (·.cellOf? d) same

/-- What an event makes of the roster does not depend on the cache. -/
theorem roster_apply_congr (hx : x.Sound t) (hy : y.Sound t) (same : x.roster = y.roster)
    (e : FleetEvent) : (x.apply e).1.roster = (y.apply e).1.roster := by
  cases e with
  | update d p =>
    simp only [DriverIndex.apply, update, hx.cellOf_eq, hy.cellOf_eq, same]
    cases t.cellOf p with
    | error e => exact same
    | ok c =>
      dsimp only
      split
      · exact same
      · rfl
  | remove d =>
    simp only [DriverIndex.apply, remove, same]
    split
    · rfl
    · exact same
  | clear => rfl

theorem roster_after_congr (hx : x.Sound t) (hy : y.Sound t) (same : x.roster = y.roster)
    (calls : List FleetCall) : (x.after calls).roster = (y.after calls).roster := by
  induction calls generalizing x y with
  | nil => exact same
  | cons call calls ih =>
    cases call with
    | event e => exact ih (hx.apply e) (hy.apply e) (hx.roster_apply_congr hy same e)
    | search pickup k =>
      refine ih (hx.search pickup k) (hy.search pickup k) ?_
      rw [roster_search, roster_search, same]

/-- A search cannot be told from any answer given later. -/
theorem answersAlike_after_search (h : x.Sound t) (pickup : Point Float) (k : Nat)
    (calls : List FleetCall) :
    ((x.search pickup k).index.after calls).AnswersAlike (x.after calls) :=
  ((h.search pickup k).after calls).answersAlike (h.after calls)
    ((h.search pickup k).roster_after_congr h (roster_search x pickup k) calls)

end Sound

/-- **A search finds the drivers in the disk around a pickup.**  Whatever reports, removals,
clearings and searches an index has behind it, a search finds exactly the pairs of a driver and
the driver's cell, where this cell lies in the disk of at most ten rings around the cell of the
pickup; each driver once, in strictly increasing order of the bytes of the identifiers; and
nobody for a pickup out of range.  The cache has no part in this: a search of any index in which
the drivers are in the same cells finds the same, and after a search every question, asked at
once or after any further calls, is answered as if there had been no search. -/
theorem search_finds_drivers_in_disk {t : Tiling C} (distinct : ∀ c k, (t.disk c k).Nodup)
    {x : DriverIndex C} (h : Reachable t x) (pickup : Point Float) (k : Nat) :
    let found := (x.search pickup k).found
    (∀ d c, (d, c) ∈ found ↔
      x.cellOf? d = some c ∧ ∃ o, t.cellOf pickup = .ok o ∧ c ∈ t.disk o (min k 10)) ∧
    (found.map Prod.fst).Nodup ∧
    (found.Pairwise fun a b => a.1.toUTF8.data.toList < b.1.toUTF8.data.toList) ∧
    x.nearby pickup k = found.map Prod.fst ∧
    (pickup.isValid = false → found = [] ∧ x.nearby pickup k = []) ∧
    (∀ y, Reachable t y → (∀ d, y.cellOf? d = x.cellOf? d) →
      (y.search pickup k).found = found) ∧
    ∀ calls, ((x.search pickup k).index.after calls).AnswersAlike (x.after calls) := by
  intro found
  have sound := h.sound
  have sorted : found.Pairwise fun a b => a.1 < b.1 := sound.found_pairwise distinct k
  refine ⟨fun d c => ?_, ?_, ?_, rfl, fun invalid => ?_, fun y hy same => ?_,
    sound.answersAlike_after_search pickup k⟩
  · rw [sound.mem_found]
    constructor
    · rintro ⟨o, inside, cell, near⟩
      exact ⟨cell, o, inside, near⟩
    · rintro ⟨cell, o, inside, near⟩
      exact ⟨o, inside, cell, near⟩
  · exact List.pairwise_map.mpr (sorted.imp fun less => ne_of_lt less)
  · exact sorted.imp fun less => lt_iff_utf8_lt.mp less
  · have none : found = [] := sound.found_of_error (t.cellOf_of_not_valid invalid) k
    exact ⟨none, congrArg (List.map Prod.fst) none⟩
  · exact hy.sound.found_congr sound same pickup k

/-- A driver who reports from the place of a pickup is found there, and nobody is found at a
latitude beyond the pole. -/
theorem driver_at_pickup_is_found :
    let t := Tiling.hexagonal .neighborhood
    let x := ((ofGrid (.ofSettings {} t)).apply (.update "d" ⟨0, 0⟩)).1
    ("d", Cell.locate .neighborhood ⟨0, 0⟩) ∈ (x.search ⟨0, 0⟩ 12).found ∧
      (x.search ⟨91, 0⟩ 12).found = [] := by
  intro t x
  have reachable : Reachable t x := .apply (.update "d" ⟨0, 0⟩) (.start {})
  have inside : t.cellOf ⟨0, 0⟩ = .ok (Cell.locate .neighborhood ⟨0, 0⟩) := by
    rw [Tiling.cellOf, if_pos (by decide)]
    rfl
  have cell : x.cellOf? "d" = some (Cell.locate .neighborhood ⟨0, 0⟩) :=
    cellOf?_update (x := ofGrid (.ofSettings {} t)) inside "d" "d"
  have here := search_finds_drivers_in_disk (t := .hexagonal .neighborhood) Cell.nodup_disk
    reachable ⟨0, 0⟩ 12
  have beyond := search_finds_drivers_in_disk (t := .hexagonal .neighborhood) Cell.nodup_disk
    reachable ⟨91, 0⟩ 12
  refine ⟨(here.1 _ _).mpr ⟨cell, _, inside, Cell.mem_disk_self _ _⟩, ?_⟩
  exact (beyond.2.2.2.2.1 (by decide)).1

end DriverIndex

end GeoDispatch
