import GeoDispatch.Proofs.Fleet.Consistency
import GeoDispatch.Proofs.Grid.Cache

/-! # What a search finds

An index changes by the events of the fleet and by searches, which fill its cache.  The
states it can come to (`DriverIndex.Reachable`) keep the tiling, a faithful cache and a
consistent roster (`DriverIndex.Sound`).  In such a state a search finds exactly the drivers
whose cell is in the disk around the cell of the pickup (`Sound.mem_found`), each once and in
the order of their identifiers (`Sound.found_pairwise`).
-/

namespace GeoDispatch

namespace DriverIndex

variable {C : Type} [DecidableEq C] [Hashable C]

/-! ## Drivers among cells -/

theorem mem_driversAmong {r : Roster C} (h : r.Consistent) {cells : List C} {d : String} {c : C} :
    (d, c) ∈ driversAmong r cells ↔ r.cellOf? d = some c ∧ c ∈ cells := by
  rw [driversAmong, List.mem_mergeSort, List.mem_flatMap]
  constructor
  · rintro ⟨c', hc', hmem⟩
    obtain ⟨d', hd', he⟩ := List.mem_map.mp hmem
    cases he
    exact ⟨(h.holds_iff d c).mp (Roster.mem_driversOf.mp hd'), hc'⟩
  · rintro ⟨hcell, hc⟩
    refine ⟨c, hc, List.mem_map.mpr ⟨d, ?_, rfl⟩⟩
    exact Roster.mem_driversOf.mpr ((h.holds_iff d c).mpr hcell)

/-- No driver is in two of the cells. -/
theorem nodup_map_fst_driversAmong {r : Roster C} (h : r.Consistent) {cells : List C}
    (distinct : cells.Nodup) : ((driversAmong r cells).map Prod.fst).Nodup := by
  have hperm := (List.mergeSort_perm (cells.flatMap fun c => (r.driversOf c).map fun d => (d, c))
    fun a b => a.1 ≤ b.1).map Prod.fst
  have hfst : (cells.flatMap fun c => (r.driversOf c).map fun d => (d, c)).map Prod.fst =
      cells.flatMap r.driversOf := by
    simp only [List.map_flatMap, List.map_map, Function.comp_def, List.map_id']
  rw [driversAmong, hperm.nodup_iff, hfst]
  refine List.nodup_flatMap.mpr ⟨fun c _ => r.nodup_driversOf c, distinct.imp ?_⟩
  intro c c' hne d hd hd'
  have hc := (h.holds_iff d c).mp (Roster.mem_driversOf.mp hd)
  have hc' := (h.holds_iff d c').mp (Roster.mem_driversOf.mp hd')
  exact hne (Option.some.inj (hc.symm.trans hc'))

theorem driversAmong_pairwise_le (r : Roster C) (cells : List C) :
    (driversAmong r cells).Pairwise fun a b => a.1 ≤ b.1 :=
  (List.pairwise_mergeSort (by simpa using fun a _ b _ c _ => le_trans)
    (by simpa using fun a _ b _ => le_total a b) _).imp (by simp)

theorem driversAmong_pairwise {r : Roster C} (h : r.Consistent) {cells : List C}
    (distinct : cells.Nodup) : (driversAmong r cells).Pairwise fun a b => a.1 < b.1 := by
  have hne := List.pairwise_map.mp (nodup_map_fst_driversAmong h distinct)
  exact (driversAmong_pairwise_le r cells).imp₂ (fun _ _ => lt_of_le_of_ne) hne

/-- If a cell is listed twice, so are its drivers, side by side. -/
theorem driversAmong_sorted {r : Roster C} (h : r.Consistent) (cells : List C) :
    (driversAmong r cells).Pairwise fun a b => a = b ∨ a.1 < b.1 := by
  refine (driversAmong_pairwise_le r cells).imp_of_mem fun {a b} ha hb hle => ?_
  rcases eq_or_lt_of_le hle with same | hlt
  · have here := ((mem_driversAmong h).mp ha).1
    have there := ((mem_driversAmong h).mp hb).1
    rw [← same, here] at there
    exact .inl (Prod.ext same (Option.some.inj there))
  · exact .inr hlt

/-! ## The states of an index -/

/-- What holds of an index whatever happened to it: its tiling is the one it was made for, its
cache holds the disks of that tiling, and its roster is consistent. -/
structure Sound (t : Tiling C) (x : DriverIndex C) : Prop where
  tiling_eq : x.grid.tiling = t
  faithful : x.grid.Faithful
  consistent : x.roster.Consistent

/-- The states an index over a tiling comes to by events and searches, from the one without
drivers. -/
inductive Reachable (t : Tiling C) : DriverIndex C → Prop where
  | start (s : GridSettings) : Reachable t (ofGrid (.ofSettings s t))
  | apply {x : DriverIndex C} (e : FleetEvent) : Reachable t x → Reachable t (x.apply e).1
  | search {x : DriverIndex C} (pickup : Point Float) (k : Nat) :
      Reachable t x → Reachable t (x.search pickup k).index

variable {t : Tiling C} {x : DriverIndex C}

theorem sound_ofGrid (s : GridSettings) (t : Tiling C) : (ofGrid (.ofSettings s t)).Sound t where
  tiling_eq := rfl
  faithful := Grid.faithful_ofSettings s t
  consistent := Roster.consistent_empty

/-- An event of the fleet leaves the grid alone. -/
theorem grid_apply (x : DriverIndex C) (e : FleetEvent) : (x.apply e).1.grid = x.grid := by
  cases e with
  | update d p =>
    simp only [apply, update]
    split
    · rfl
    · split <;> rfl
  | remove d =>
    simp only [apply, remove]
    split <;> rfl
  | clear => rfl

theorem Sound.apply (h : x.Sound t) (e : FleetEvent) : (x.apply e).1.Sound t where
  tiling_eq := (congrArg Grid.tiling (grid_apply x e)).trans h.tiling_eq
  faithful := (grid_apply x e).symm ▸ h.faithful
  consistent := consistent_apply h.consistent e

/-- A search leaves the roster alone. -/
theorem roster_search (x : DriverIndex C) (pickup : Point Float) (k : Nat) :
    (x.search pickup k).index.roster = x.roster := by
  unfold search
  split <;> rfl

theorem Sound.search (h : x.Sound t) (pickup : Point Float) (k : Nat) :
    (x.search pickup k).index.Sound t := by
  unfold DriverIndex.search
  split
  · exact h
  · exact ⟨h.tiling_eq, Grid.faithful_disk h.faithful _ _, h.consistent⟩

theorem Reachable.sound (h : Reachable t x) : x.Sound t := by
  induction h with
  | start s => exact sound_ofGrid s t
  | apply e _ ih => exact ih.apply e
  | search pickup k _ ih => exact ih.search pickup k

/-! ## The answer of a search -/

namespace Sound

variable (h : x.Sound t) {pickup : Point Float}
include h

theorem cellOf_eq (p : Point Float) : x.grid.cellOf p = t.cellOf p :=
  congrArg (fun t => t.cellOf p) h.tiling_eq

theorem found_of_error {e : GeoError} (out : t.cellOf pickup = .error e) (k : Nat) :
    (x.search pickup k).found = [] := by
  rw [DriverIndex.search, h.cellOf_eq, out]

/-- The answer depends on the tiling and the roster, not on what the cache holds. -/
theorem found_of_ok {o : C} (inside : t.cellOf pickup = .ok o) (k : Nat) :
    (x.search pickup k).found = driversAmong x.roster (t.disk o (min k maxRings)) := by
  rw [DriverIndex.search, h.cellOf_eq, inside]
  change driversAmong x.roster (x.grid.disk o (min k maxRings)).1 = _
  rw [Grid.disk_fst h.faithful, h.tiling_eq]

theorem mem_found {k : Nat} {d : String} {c : C} :
    (d, c) ∈ (x.search pickup k).found ↔
      ∃ o, t.cellOf pickup = .ok o ∧ x.cellOf? d = some c ∧ c ∈ t.disk o (min k maxRings) := by
  cases place : t.cellOf pickup with
  | error e => simp [h.found_of_error place]
  | ok o =>
    rw [h.found_of_ok place, mem_driversAmong h.consistent]
    constructor
    · intro hmem
      exact ⟨o, rfl, hmem⟩
    · rintro ⟨o', same, hmem⟩
      cases same
      exact hmem

theorem found_pairwise (distinct : ∀ c k, (t.disk c k).Nodup) (k : Nat) :
    (x.search pickup k).found.Pairwise fun a b => a.1 < b.1 := by
  cases place : t.cellOf pickup with
  | error e =>
    rw [h.found_of_error place]
    exact .nil
  | ok o =>
    rw [h.found_of_ok place]
    exact driversAmong_pairwise h.consistent (distinct _ _)

theorem found_sorted (k : Nat) :
    (x.search pickup k).found.Pairwise fun a b => a = b ∨ a.1 < b.1 := by
  cases place : t.cellOf pickup with
  | error e =>
    rw [h.found_of_error place]
    exact .nil
  | ok o =>
    rw [h.found_of_ok place]
    exact driversAmong_sorted h.consistent _

end Sound

end DriverIndex

end GeoDispatch
