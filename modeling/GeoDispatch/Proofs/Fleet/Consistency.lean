import GeoDispatch.Fleet.DriverIndex
import Mathlib.Algebra.GroupWithZero.Nat
import Mathlib.Data.List.Perm.Lattice
import Mathlib.Data.String.Basic

/-!
# The two maps of a roster agree

A roster keeps the cell of every driver and the drivers of every cell.  `Roster.Consistent`
says that the two tell the same story: a driver is among the drivers of a cell exactly when
that is the driver's cell, and no cell is kept without drivers.  The empty roster is
consistent, and `place` and `remove` keep it so, whatever was there before; so it holds of
every index that a history of reports leads to (`DriverIndex.consistent_run`).

What the index answers follows from the invariant alone: the drivers of a cell come in
strictly increasing order (`DriverIndex.driversIn_pairwise`), and the counts of the cells add
up to the number of drivers (`Roster.Consistent.size_eq_sum_counts`).
-/

namespace GeoDispatch

namespace Roster

variable {C : Type} [DecidableEq C] [Hashable C]

/-! ## Adding to and taking from the drivers of the cells -/

/-- A map from cells to drivers holds a driver in a cell. -/
def Holds (m : Std.HashMap C (Std.HashSet String)) (d : String) (c : C) : Prop :=
  ∃ s, m[c]? = some s ∧ d ∈ s

/-- No cell of the map is without drivers. -/
def NoneEmpty (m : Std.HashMap C (Std.HashSet String)) : Prop :=
  ∀ (c : C) (s : Std.HashSet String), m[c]? = some s → s.isEmpty = false

theorem holds_attach {m : Std.HashMap C (Std.HashSet String)} {d d' : String} {c c' : C} :
    Holds (attach m d c) d' c' ↔ Holds m d' c' ∨ d' = d ∧ c' = c := by
  unfold Holds attach
  rw [Std.HashMap.getElem?_insert]
  by_cases hc : c = c'
  · subst hc
    rw [if_pos (beq_self_eq_true c)]
    constructor
    · rintro ⟨s, hs, hd⟩
      cases hs
      rcases Std.HashSet.mem_insert.mp hd with he | hmem
      · exact Or.inr ⟨(eq_of_beq he).symm, rfl⟩
      · cases hget : m[c]? with
        | none => simp [hget] at hmem
        | some t => exact Or.inl ⟨t, rfl, by simpa [hget] using hmem⟩
    · rintro (⟨s, hs, hd⟩ | ⟨rfl, -⟩)
      · exact ⟨_, rfl, Std.HashSet.mem_insert.mpr (Or.inr (by simpa [hs] using hd))⟩
      · exact ⟨_, rfl, Std.HashSet.mem_insert_self⟩
  · rw [if_neg (by simpa using hc)]
    exact ⟨Or.inl, fun h => h.resolve_right fun he => hc he.2.symm⟩

theorem noneEmpty_attach {m : Std.HashMap C (Std.HashSet String)} (h : NoneEmpty m)
    (d : String) (c : C) : NoneEmpty (attach m d c) := by
  intro c' s hs
  unfold attach at hs
  rw [Std.HashMap.getElem?_insert] at hs
  split at hs
  · cases hs
    exact Std.HashSet.isEmpty_insert
  · exact h c' s hs

theorem holds_detach {m : Std.HashMap C (Std.HashSet String)} {d d' : String} {c c' : C} :
    Holds (detach m d c) d' c' ↔ Holds m d' c' ∧ ¬(d' = d ∧ c' = c) := by
  unfold Holds detach
  cases hget : m[c]? with
  | none =>
    refine ⟨fun ⟨s, hs, hd⟩ => ⟨⟨s, hs, hd⟩, ?_⟩, And.left⟩
    rintro ⟨-, rfl⟩
    simp [hget] at hs
  | some t =>
    by_cases hc : c = c'
    · subst hc
      -- the driver leaves the set; when the set is then empty, its entry goes as well
      have hrest : (∃ s, m[c]? = some s ∧ d' ∈ s) ∧ ¬(d' = d ∧ c = c) ↔ d' ∈ t.erase d := by
        rw [Std.HashSet.mem_erase, beq_eq_false_iff_ne]
        constructor
        · rintro ⟨⟨s, hs, hd⟩, hne⟩
          rw [hget] at hs
          cases hs
          exact ⟨fun he => hne ⟨he.symm, rfl⟩, hd⟩
        · rintro ⟨hne, hd⟩
          exact ⟨⟨t, hget, hd⟩, fun he => hne he.1.symm⟩
      rw [← hget, hrest, hget]
      dsimp only
      split
      · rename_i hempty
        rw [Std.HashMap.getElem?_erase_self]
        have hnot := Std.HashSet.isEmpty_iff_forall_not_mem.mp hempty d'
        exact iff_of_false (fun h => nomatch h.choose_spec.1) hnot
      · rw [Std.HashMap.getElem?_insert_self]
        exact ⟨fun ⟨s, hs, hd⟩ => Option.some.inj hs ▸ hd, fun hd => ⟨_, rfl, hd⟩⟩
    · have hne : ¬(d' = d ∧ c' = c) := fun he => hc he.2.symm
      simp only [hne, not_false_eq_true, and_true]
      split
      · rw [Std.HashMap.getElem?_erase, if_neg (by simpa using hc)]
      · rw [Std.HashMap.getElem?_insert, if_neg (by simpa using hc)]

theorem noneEmpty_detach {m : Std.HashMap C (Std.HashSet String)} (h : NoneEmpty m)
    (d : String) (c : C) : NoneEmpty (detach m d c) := by
  intro c' s hs
  unfold detach at hs
  split at hs
  · dsimp only at hs
    split at hs
    · rw [Std.HashMap.getElem?_erase] at hs
      split at hs
      · cases hs
      · exact h c' s hs
    · rename_i hrest
      rw [Std.HashMap.getElem?_insert] at hs
      split at hs
      · cases hs
        exact Bool.eq_false_iff.mpr hrest
      · exact h c' s hs
  · exact h c' s hs

/-! ## The invariant -/

/-- The cell of every driver and the drivers of every cell agree, and every cell that is
kept has drivers. -/
structure Consistent (r : Roster C) : Prop where
  holds_iff : ∀ d c, Holds r.drivers d c ↔ r.cellOf? d = some c
  noneEmpty : NoneEmpty r.drivers

theorem consistent_empty : (empty : Roster C).Consistent where
  holds_iff d c := by simp [Holds, empty, cellOf?]
  noneEmpty c s hs := by simp [empty] at hs

theorem cellOf?_empty (d : String) : (empty : Roster C).cellOf? d = none :=
  Std.HashMap.getElem?_empty

/-- A driver who is placed is in the new cell and nowhere else. -/
theorem cellOf?_place (r : Roster C) (d d' : String) (c : C) :
    (r.place d c).cellOf? d' = if d' = d then some c else r.cellOf? d' := by
  simp only [place, cellOf?, Std.HashMap.getElem?_insert, beq_iff_eq, eq_comm (a := d)]

/-- A driver who is removed is nowhere. -/
theorem cellOf?_remove (r : Roster C) (d d' : String) :
    (r.remove d).cellOf? d' = if d' = d then none else r.cellOf? d' := by
  unfold remove
  split
  · simp only [cellOf?, Std.HashMap.getElem?_erase, beq_iff_eq, eq_comm (a := d)]
  · rename_i hnone
    split
    · rename_i heq
      rw [heq, hnone]
    · rfl

/-- Out of the set of the cell where the driver was, the driver is in no set. -/
theorem Consistent.holds_detach {r : Roster C} (h : r.Consistent) {d : String} {old : C}
    (hold : r.cellOf? d = some old) {d' : String} {c' : C} :
    Holds (detach r.drivers d old) d' c' ↔ Holds r.drivers d' c' ∧ d' ≠ d := by
  rw [Roster.holds_detach]
  refine and_congr_right fun hh => not_congr ⟨And.left, fun he => ⟨he, ?_⟩⟩
  have hcell := (h.holds_iff d' c').mp hh
  rw [he, hold] at hcell
  exact (Option.some.inj hcell).symm

theorem Consistent.place {r : Roster C} (h : r.Consistent) (d : String) (c : C) :
    (r.place d c).Consistent := by
  have hdrivers : ∀ d' c', Holds (r.place d c).drivers d' c' ↔
      (Holds r.drivers d' c' ∧ d' ≠ d) ∨ d' = d ∧ c' = c := by
    intro d' c'
    unfold Roster.place
    rw [holds_attach]
    cases hold : r.cellOf? d with
    | none =>
      -- the driver was nowhere, so that there is nothing to leave
      have hne : Holds r.drivers d' c' → d' ≠ d := by
        rintro hh rfl
        have hcell := (h.holds_iff d' c').mp hh
        rw [hold] at hcell
        cases hcell
      exact or_congr_left ⟨fun hh => ⟨hh, hne hh⟩, And.left⟩
    | some old =>
      dsimp only
      rw [h.holds_detach hold]
  refine ⟨fun d' c' => ?_, ?_⟩
  · rw [hdrivers, cellOf?_place]
    split
    · rename_i heq
      simp [heq, eq_comm]
    · rename_i hne
      simp [hne, h.holds_iff]
  · unfold Roster.place
    refine noneEmpty_attach ?_ d c
    split
    · exact noneEmpty_detach h.noneEmpty d _
    · exact h.noneEmpty

theorem Consistent.remove {r : Roster C} (h : r.Consistent) (d : String) :
    (r.remove d).Consistent := by
  refine ⟨fun d' c' => ?_, ?_⟩
  · rw [cellOf?_remove]
    unfold Roster.remove
    cases hold : r.cellOf? d with
    | none =>
      by_cases hd : d' = d
      · subst hd
        simp [h.holds_iff, hold]
      · simp [hd, h.holds_iff]
    | some old =>
      dsimp only
      rw [h.holds_detach hold, h.holds_iff]
      by_cases hd : d' = d
      · simp [hd]
      · simp [hd]
  · unfold Roster.remove
    split
    · exact noneEmpty_detach h.noneEmpty d _
    · exact h.noneEmpty

/-! ## What a consistent roster answers -/

theorem mem_driversOf {r : Roster C} {d : String} {c : C} :
    d ∈ r.driversOf c ↔ Holds r.drivers d c := by
  unfold driversOf Holds
  split
  · rename_i s hs
    rw [Std.HashSet.mem_toList, hs]
    exact ⟨fun hd => ⟨s, rfl, hd⟩, fun ⟨t, ht, hd⟩ => Option.some.inj ht ▸ hd⟩
  · rename_i hnone
    simp [hnone]

theorem nodup_toList (s : Std.HashSet String) : s.toList.Nodup :=
  Std.HashSet.distinct_toList.imp fun h he => by simp [he] at h

theorem nodup_driversOf (r : Roster C) (c : C) : (r.driversOf c).Nodup := by
  unfold driversOf
  split
  · exact nodup_toList _
  · exact List.nodup_nil

theorem mem_counts {r : Roster C} {c : C} {n : Nat} :
    (c, n) ∈ r.counts ↔ ∃ s, r.drivers[c]? = some s ∧ n = s.size := by
  unfold counts
  rw [List.mem_map]
  constructor
  · rintro ⟨⟨c', s⟩, hmem, he⟩
    cases he
    exact ⟨s, Std.HashMap.mem_toList_iff_getElem?_eq_some.mp hmem, rfl⟩
  · rintro ⟨s, hs, rfl⟩
    exact ⟨(c, s), Std.HashMap.mem_toList_iff_getElem?_eq_some.mpr hs, rfl⟩

theorem map_fst_counts (r : Roster C) : r.counts.map Prod.fst = r.drivers.keys := by
  rw [counts, List.map_map, ← Std.HashMap.map_fst_toList_eq_keys]
  rfl

/-- The drivers of all cells, one cell after the other, are the drivers of the roster. -/
theorem Consistent.keys_perm {r : Roster C} (h : r.Consistent) :
    r.cells.keys.Perm (r.drivers.toList.flatMap fun e => e.2.toList) := by
  have hget : ∀ e ∈ r.drivers.toList, r.drivers[e.1]? = some e.2 := fun e he =>
    Std.HashMap.mem_toList_iff_getElem?_eq_some.mp he
  have hcell : ∀ e ∈ r.drivers.toList, ∀ d ∈ e.2.toList, r.cellOf? d = some e.1 :=
    fun e he d hd =>
      (h.holds_iff d e.1).mp ⟨e.2, hget e he, Std.HashSet.mem_toList.mp hd⟩
  refine (List.perm_ext_iff_of_nodup Std.HashMap.nodup_keys ?_).mpr fun d => ?_
  · -- a driver in the sets of two cells would have two cells
    refine List.nodup_flatMap.mpr ⟨fun e _ => nodup_toList e.2, ?_⟩
    refine Std.HashMap.distinct_keys_toList.imp_of_mem fun {e e'} he he' hne d hd hd' => ?_
    have := (hcell e he d hd).symm.trans (hcell e' he' d hd')
    rw [Option.some.inj this] at hne
    simp at hne
  · rw [Std.HashMap.mem_keys, List.mem_flatMap]
    constructor
    · intro hd
      obtain ⟨c, hc⟩ := Option.isSome_iff_exists.mp
        (Std.HashMap.mem_iff_isSome_getElem?.mp hd)
      obtain ⟨s, hs, hds⟩ := (h.holds_iff d c).mpr hc
      exact ⟨(c, s), Std.HashMap.mem_toList_iff_getElem?_eq_some.mpr hs,
        Std.HashSet.mem_toList.mpr hds⟩
    · rintro ⟨e, he, hd⟩
      refine Std.HashMap.mem_iff_isSome_getElem?.mpr ?_
      exact Option.isSome_iff_exists.mpr ⟨e.1, hcell e he d hd⟩

/-- The counts of the cells add up to the number of drivers. -/
theorem Consistent.size_eq_sum_counts {r : Roster C} (h : r.Consistent) :
    r.size = (r.counts.map Prod.snd).sum := by
  have hlen := h.keys_perm.length_eq
  rw [Std.HashMap.length_keys, List.length_flatMap] at hlen
  rw [size, hlen, counts, List.map_map]
  simp only [Std.HashSet.length_toList, Function.comp_def]

/-- The cells that are counted are those of some driver. -/
theorem Consistent.mem_map_fst_counts {r : Roster C} (h : r.Consistent) {c : C} :
    c ∈ r.counts.map Prod.fst ↔ ∃ d, r.cellOf? d = some c := by
  rw [map_fst_counts, Std.HashMap.mem_keys, Std.HashMap.mem_iff_isSome_getElem?,
    Option.isSome_iff_exists]
  constructor
  · rintro ⟨s, hs⟩
    obtain ⟨d, hd⟩ :=
      Std.HashSet.isEmpty_eq_false_iff_exists_mem.mp (h.noneEmpty c s hs)
    exact ⟨d, (h.holds_iff d c).mp ⟨s, hs, hd⟩⟩
  · rintro ⟨d, hd⟩
    obtain ⟨s, hs, -⟩ := (h.holds_iff d c).mpr hd
    exact ⟨s, hs⟩

end Roster

namespace DriverIndex

variable {C : Type} [DecidableEq C] [Hashable C]

theorem mem_driversIn {x : DriverIndex C} (h : x.roster.Consistent) {d : String} {c : C} :
    d ∈ x.driversIn c ↔ x.cellOf? d = some c := by
  rw [driversIn, List.mem_mergeSort, Roster.mem_driversOf, h.holds_iff]
  rfl

/-- The drivers of a cell come in strictly increasing order. -/
theorem driversIn_pairwise (x : DriverIndex C) (c : C) :
    (x.driversIn c).Pairwise (· < ·) := by
  have hsorted : (x.driversIn c).Pairwise (· ≤ ·) :=
    (List.pairwise_mergeSort (by simpa using fun a b c => le_trans)
      (by simpa using fun a b => le_total a b) _).imp (by simp)
  have hnodup : (x.driversIn c).Nodup :=
    (List.mergeSort_perm _ _).nodup_iff.mpr (x.roster.nodup_driversOf c)
  exact hsorted.imp₂ (fun _ _ => lt_of_le_of_ne) hnodup

theorem length_driversIn_of_mem_counts {x : DriverIndex C} {c : C} {n : Nat}
    (h : (c, n) ∈ x.counts) : n = (x.driversIn c).length := by
  obtain ⟨s, hs, rfl⟩ := Roster.mem_counts.mp h
  rw [driversIn, List.length_mergeSort, Roster.driversOf, hs]
  exact Std.HashSet.length_toList.symm

/-- A driver who reports a place in range is in its cell, and the others stay where they
are. -/
theorem cellOf?_update {x : DriverIndex C} {p : Point Float} {c : C}
    (inside : x.grid.cellOf p = .ok c) (d d' : String) :
    (x.update d p).1.cellOf? d' = if d' = d then some c else x.cellOf? d' := by
  unfold update
  rw [inside]
  dsimp only
  split
  · rename_i still
    split
    · rename_i same
      rw [same]
      exact still
    · rfl
  · exact x.roster.cellOf?_place d d' c

/-! ## Every history keeps the invariant -/

theorem consistent_apply {x : DriverIndex C} (h : x.roster.Consistent) (e : FleetEvent) :
    (x.apply e).1.roster.Consistent := by
  cases e with
  | update d p =>
    simp only [apply, update]
    split
    · exact h
    · split
      · exact h
      · exact h.place d _
  | remove d =>
    simp only [apply, remove]
    split
    · exact h.remove d
    · exact h
  | clear => exact Roster.consistent_empty

theorem consistent_run {x : DriverIndex C} (h : x.roster.Consistent) (es : List FleetEvent) :
    (x.run es).1.roster.Consistent := by
  induction es generalizing x with
  | nil => exact h
  | cons e es ih => exact ih (consistent_apply h e)

/-- **The two maps agree after every step of every history** of reports, removals and
clearings of an index without drivers: a driver is in the set of a cell exactly when that is
the driver's cell, and no set is empty.  Hence no driver is in two cells, the counts add up to
the number of drivers and are those of exactly the cells of some driver, each listed once,
and the drivers of a cell are listed in strictly increasing order. -/
theorem maps_agree_after_every_step (g : Grid C) (es : List FleetEvent) (n : Nat) :
    let x := ((ofGrid g).run (es.take n)).1
    (∀ (d : String) (c : C), (∃ s : Std.HashSet String, x.roster.drivers[c]? = some s ∧ d ∈ s) ↔
      x.roster.cells[d]? = some c) ∧
    (∀ (c : C) (s : Std.HashSet String), x.roster.drivers[c]? = some s → s.isEmpty = false) ∧
    (∀ d c c', d ∈ x.driversIn c → d ∈ x.driversIn c' → c = c') ∧
    x.size = (x.counts.map Prod.snd).sum ∧
    (x.counts.map Prod.fst).Nodup ∧
    (∀ c, c ∈ x.counts.map Prod.fst ↔ ∃ d, x.cellOf? d = some c) ∧
    (∀ c k, (c, k) ∈ x.counts → k = (x.driversIn c).length) ∧
    ∀ c, (x.driversIn c).Pairwise (· < ·) ∧ ∀ d, d ∈ x.driversIn c ↔ x.cellOf? d = some c := by
  intro x
  have h : x.roster.Consistent := consistent_run Roster.consistent_empty _
  refine ⟨h.holds_iff, h.noneEmpty, ?_, h.size_eq_sum_counts, ?_, ?_, ?_, ?_⟩
  · intro d c c' hc hc'
    have := ((mem_driversIn h).mp hc).symm.trans ((mem_driversIn h).mp hc')
    exact Option.some.inj this
  · exact Roster.map_fst_counts x.roster ▸ Std.HashMap.nodup_keys
  · exact fun c => h.mem_map_fst_counts
  · exact fun c k => length_driversIn_of_mem_counts
  · exact fun c => ⟨x.driversIn_pairwise c, fun d => mem_driversIn h⟩

end DriverIndex

end GeoDispatch
