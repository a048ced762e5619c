import GeoDispatch.Proofs.Fleet.Search
import Mathlib.Data.List.Induction
import Mathlib.Data.List.Perm.Basic

/-! # The last write of every driver

An index answers from the last write of every driver and from nothing else.  What an event
means to one driver is a function on an optional cell (`FleetEvent.carry`): a report from a
valid place puts the driver into its cell, a removal or a clearing takes the driver away, and
every other event leaves the cell alone.  The cell of a driver after any sequence of calls is
the fold of that function over the events (`DriverIndex.cellOf?_after`), so it is the cell of
the last accepted report that nothing took back (`FleetEvent.foldl_carry_eq_some_iff`).

Two sound indices over one tiling that agree on the cell of every driver agree on all answers
(`DriverIndex.Sound.found_congr` and its companions), whatever the maps look like inside and
whatever the caches hold.  Hence histories with the same events for each driver cannot be told
apart, however the drivers' events are interleaved and wherever searches stood between them.
-/

namespace GeoDispatch

/-! ## Events as one driver sees them -/

namespace FleetEvent

variable {C : Type}

/-- Whether an event is about a driver; a clearing is about everyone. -/
def concerns (d : String) : FleetEvent → Bool
  | update d' _ => d' == d
  | remove d' => d' == d
  | clear => true

/-- Whether an event decides the cell of a driver: a report of the driver from a valid place,
a removal of the driver, or a clearing. -/
def Writes (t : Tiling C) (d : String) : FleetEvent → Prop
  | update d' p => d' = d ∧ ∃ c, t.cellOf p = .ok c
  | remove d' => d' = d
  | clear => True

/-- The cell of a driver after an event, from the cell before it. -/
def carry (t : Tiling C) (d : String) (old : Option C) : FleetEvent → Option C
  | update d' p =>
    if d' = d then
      match t.cellOf p with
      | .ok c => some c
      | .error _ => old
    else old
  | remove d' => if d' = d then none else old
  | clear => none

variable {t : Tiling C} {d : String}

theorem concerns_of_writes {e : FleetEvent} (h : e.Writes t d) : e.concerns d := by
  cases e with
  | update d' p => exact beq_iff_eq.mpr h.1
  | remove d' => exact beq_iff_eq.mpr h
  | clear => rfl

/-- An event that is no write of the driver leaves the cell alone. -/
theorem carry_of_not_writes {e : FleetEvent} (h : ¬ e.Writes t d) (old : Option C) :
    carry t d old e = old := by
  cases e with
  | update d' p =>
    simp only [carry]
    split
    · rename_i same
      cases place : t.cellOf p with
      | ok c => exact absurd ⟨same, c, place⟩ h
      | error _ => rfl
    · rfl
  | remove d' => exact if_neg h
  | clear => exact absurd trivial h

/-- After a write the driver is in the cell of an accepted report, and in none after any other
write. -/
theorem carry_eq_some_iff {e : FleetEvent} (h : e.Writes t d) {old : Option C} {c : C} :
    carry t d old e = some c ↔ ∃ p, e = update d p ∧ t.cellOf p = .ok c := by
  cases e with
  | update d' p =>
    obtain ⟨rfl, c', place⟩ := h
    simp only [carry, if_true, place]
    constructor
    · intro heq
      exact ⟨p, rfl, place.trans (congrArg Except.ok (Option.some.inj heq))⟩
    · rintro ⟨q, heq, hq⟩
      cases heq
      exact congrArg some (Except.ok.inj (place.symm.trans hq))
  | remove d' =>
    have gone : carry t d old (remove d') = none := if_pos h
    rw [gone]
    exact iff_of_false (fun heq => nomatch heq) (fun ⟨_, heq, _⟩ => nomatch heq)
  | clear => exact iff_of_false (fun heq => nomatch heq) (fun ⟨_, heq, _⟩ => nomatch heq)

/-- Only the events about a driver carry its cell on. -/
theorem foldl_carry_filter (es : List FleetEvent) (old : Option C) :
    (es.filter (·.concerns d)).foldl (carry t d) old = es.foldl (carry t d) old := by
  rw [List.foldl_filter]
  congr 1
  funext o e
  split
  · rfl
  · rename_i other
    exact (carry_of_not_writes (fun h => other (concerns_of_writes h)) o).symm

/-- A list with one more element splits at that element or at an earlier one. -/
theorem concat_eq_append_cons_iff {es front back : List FleetEvent} {e e' : FleetEvent} :
    es ++ [e] = front ++ e' :: back ↔
      back = [] ∧ es = front ∧ e = e' ∨ ∃ init, back = init ++ [e] ∧ es = front ++ e' :: init := by
  rcases List.eq_nil_or_concat' back with rfl | ⟨init, last, rfl⟩
  · simp
  · have regroup : front ++ e' :: (init ++ [last]) = (front ++ e' :: init) ++ [last] := by simp
    rw [regroup, List.append_singleton_inj]
    constructor
    · rintro ⟨rfl, rfl⟩
      exact .inr ⟨init, rfl, rfl⟩
    · rintro (⟨hnil, -⟩ | ⟨init', hback, rfl⟩)
      · simp at hnil
      · obtain ⟨rfl, rfl⟩ := List.append_singleton_inj.mp hback
        exact ⟨rfl, rfl⟩

/-- **The last write.**  From nowhere, events lead a driver into a cell exactly when a report
of the driver from there is among them and no later event is a write of the driver. -/
theorem foldl_carry_eq_some_iff {es : List FleetEvent} {c : C} :
    es.foldl (carry t d) none = some c ↔
      ∃ front p back, es = front ++ update d p :: back ∧ t.cellOf p = .ok c ∧
        ∀ e ∈ back, ¬ e.Writes t d := by
  induction es using List.reverseRecOn with
  | nil =>
    refine iff_of_false (fun heq => nomatch heq) ?_
    rintro ⟨front, p, back, heq, -⟩
    simp at heq
  | append_singleton es e ih =>
    rw [List.foldl_concat]
    by_cases h : e.Writes t d
    · rw [carry_eq_some_iff h]
      constructor
      · rintro ⟨p, rfl, place⟩
        exact ⟨es, p, [], rfl, place, fun _ he => nomatch he⟩
      · rintro ⟨front, p, back, heq, place, later⟩
        -- a write at the end leaves no room for events after the last write
        rcases concat_eq_append_cons_iff.mp heq with ⟨-, -, he⟩ | ⟨init, rfl, -⟩
        · exact ⟨p, he, place⟩
        · exact absurd h (later e (by simp))
    · rw [carry_of_not_writes h, ih]
      constructor
      · rintro ⟨front, p, back, rfl, place, later⟩
        refine ⟨front, p, back ++ [e], by simp, place, fun e' he' => ?_⟩
        rcases List.mem_append.mp he' with hmem | hmem
        · exact later e' hmem
        · exact List.mem_singleton.mp hmem ▸ h
      · rintro ⟨front, p, back, heq, place, later⟩
        rcases concat_eq_append_cons_iff.mp heq with ⟨-, -, rfl⟩ | ⟨init, rfl, hes⟩
        · exact absurd ⟨rfl, c, place⟩ h
        · exact ⟨front, p, init, hes, place, fun e' he' => later e' (by simp [he'])⟩

end FleetEvent

/-! ## Calls of an index -/

/-- A call of an index: an event of the fleet or a search. -/
inductive FleetCall where
  | event (e : FleetEvent)
  | search (pickup : Point Float) (k : Nat)

/-- The events among calls. -/
def FleetCall.events : List FleetCall → List FleetEvent
  | [] => []
  | event e :: calls => e :: events calls
  | search _ _ :: calls => events calls

namespace DriverIndex

variable {C : Type} [DecidableEq C] [Hashable C]

/-- The index after calls. -/
def after (x : DriverIndex C) : List FleetCall → DriverIndex C
  | [] => x
  | .event e :: calls => (x.apply e).1.after calls
  | .search pickup k :: calls => (x.search pickup k).index.after calls

variable {t : Tiling C} {x y : DriverIndex C}

theorem Sound.after (h : x.Sound t) (calls : List FleetCall) : (x.after calls).Sound t := by
  induction calls generalizing x with
  | nil => exact h
  | cons call calls ih =>
    cases call with
    | event e => exact ih (h.apply e)
    | search pickup k => exact ih (h.search pickup k)

/-- An event does to the cell of a driver what it means to the driver. -/
theorem Sound.cellOf?_apply (h : x.Sound t) (e : FleetEvent) (d : String) :
    (x.apply e).1.cellOf? d = e.carry t d (x.cellOf? d) := by
  cases e with
  | update d' p =>
    cases place : t.cellOf p with
    | ok c =>
      have moved := cellOf?_update ((h.cellOf_eq p).trans place) d' d
      simp only [FleetEvent.carry, place, eq_comm (a := d')]
      exact moved
    | error err =>
      have still : (x.apply (.update d' p)).1 = x := by
        rw [DriverIndex.apply, update, h.cellOf_eq, place]
      simp only [still, FleetEvent.carry, place, ite_self]
  | remove d' =>
    have roster_eq : (x.apply (.remove d')).1.roster = x.roster.remove d' := by
      simp only [DriverIndex.apply, DriverIndex.remove, Roster.remove]
      cases x.roster.cellOf? d' <;> rfl
    have gone := x.roster.cellOf?_remove d' d
    rw [← roster_eq] at gone
    simp only [FleetEvent.carry, eq_comm (a := d')]
    exact gone
  | clear => exact Roster.cellOf?_empty d

/-- The cell of a driver after calls is carried through the events among them; searches play
no part. -/
theorem Sound.cellOf?_after (h : x.Sound t) (calls : List FleetCall) (d : String) :
    (x.after calls).cellOf? d =
      (FleetCall.events calls).foldl (FleetEvent.carry t d) (x.cellOf? d) := by
  induction calls generalizing x with
  | nil => rfl
  | cons call calls ih =>
    cases call with
    | event e =>
      have step := h.cellOf?_apply e d
      rw [DriverIndex.after, ih (h.apply e), step]
      rfl
    | search pickup k =>
      have step : (x.search pickup k).index.cellOf? d = x.cellOf? d := by
        rw [cellOf?, roster_search]
        rfl
      rw [DriverIndex.after, ih (h.search pickup k), step]
      rfl

/-! ## Answers depend on the cells of the drivers only -/

omit [DecidableEq C] [Hashable C] in
/-- Sorting by a key forgets the order of the input where the key tells the members apart. -/
theorem mergeSort_eq_of_perm {l l' : List (String × C)} (same : l.Perm l')
    (keyed : ∀ a ∈ l, ∀ b ∈ l, a.1 = b.1 → a = b) :
    (l.mergeSort fun a b => a.1 ≤ b.1) = l'.mergeSort fun a b => a.1 ≤ b.1 := by
  have sorted (l : List (String × C)) :
      (l.mergeSort fun a b => a.1 ≤ b.1).Pairwise fun a b => a.1 ≤ b.1 :=
    (List.pairwise_mergeSort (by simpa using fun a _ b _ c _ => le_trans)
      (by simpa using fun a _ b _ => le_total a b) l).imp (by simp)
  refine List.Perm.eq_of_pairwise (fun a b ha hb hab hba => ?_) (sorted l) (sorted l') ?_
  · have hb' : b ∈ l := same.mem_iff.mpr (List.mem_mergeSort.mp hb)
    exact keyed a (List.mem_mergeSort.mp ha) b hb' (le_antisymm hab hba)
  · exact (List.mergeSort_perm l _).trans (same.trans (List.mergeSort_perm l' _).symm)

theorem driversOf_perm (hx : x.roster.Consistent) (hy : y.roster.Consistent)
    (same : ∀ d, x.cellOf? d = y.cellOf? d) (c : C) :
    (x.roster.driversOf c).Perm (y.roster.driversOf c) := by
  refine (List.perm_ext_iff_of_nodup (x.roster.nodup_driversOf c)
    (y.roster.nodup_driversOf c)).mpr fun d => ?_
  rw [Roster.mem_driversOf, Roster.mem_driversOf, hx.holds_iff, hy.holds_iff]
  exact iff_of_eq (congrArg (· = some c) (same d))

theorem size_congr (same : ∀ d, x.cellOf? d = y.cellOf? d) : x.size = y.size :=
  (Std.HashMap.Equiv.of_forall_getElem?_eq same).size_eq

namespace Sound

variable (hx : x.Sound t) (hy : y.Sound t) (same : ∀ d, x.cellOf? d = y.cellOf? d)
include hx hy same

theorem driversIn_congr (c : C) : x.driversIn c = y.driversIn c := by
  refine List.Perm.eq_of_pairwise (fun a b _ _ hab hba => absurd hba (lt_asymm hab))
    (x.driversIn_pairwise c) (y.driversIn_pairwise c) ?_
  exact (List.mergeSort_perm _ _).trans
    ((driversOf_perm hx.consistent hy.consistent same c).trans (List.mergeSort_perm _ _).symm)

/-- The cells that are counted and their counts are the same, in some order. -/
theorem counts_congr : x.counts.Perm y.counts := by
  have nodup (x : DriverIndex C) : x.counts.Nodup :=
    List.Nodup.of_map Prod.fst (x.roster.map_fst_counts ▸ Std.HashMap.nodup_keys)
  -- a count is the number of drivers of a cell that has some
  have mem {x : DriverIndex C} (h : x.Sound t) (c : C) (n : Nat) :
      (c, n) ∈ x.counts ↔ (∃ d, x.cellOf? d = some c) ∧ n = (x.driversIn c).length := by
    constructor
    · intro hmem
      have hfst : c ∈ x.counts.map Prod.fst := List.mem_map.mpr ⟨_, hmem, rfl⟩
      exact ⟨h.consistent.mem_map_fst_counts.mp hfst, length_driversIn_of_mem_counts hmem⟩
    · rintro ⟨hcell, rfl⟩
      obtain ⟨⟨c', n⟩, hmem, rfl⟩ := List.mem_map.mp (h.consistent.mem_map_fst_counts.mpr hcell)
      exact length_driversIn_of_mem_counts hmem ▸ hmem
  refine (List.perm_ext_iff_of_nodup (nodup x) (nodup y)).mpr fun ⟨c, n⟩ => ?_
  rw [mem hx, mem hy, driversIn_congr hx hy same]
  simp only [same]

/-- A search finds the same drivers in the same order. -/
theorem found_congr (pickup : Point Float) (k : Nat) :
    (x.search pickup k).found = (y.search pickup k).found := by
  cases place : t.cellOf pickup with
  | error e => rw [hx.found_of_error place, hy.found_of_error place]
  | ok o =>
    rw [hx.found_of_ok place, hy.found_of_ok place]
    refine mergeSort_eq_of_perm (List.Perm.flatMap_left _ fun c _ =>
      (driversOf_perm hx.consistent hy.consistent same c).map _) ?_
    -- a driver is found in the cell where it is, so no identifier comes with two cells
    intro a ha b hb heq
    have cell : ∀ e ∈ (t.disk o (min k maxRings)).flatMap
        (fun c => (x.roster.driversOf c).map fun d => (d, c)),
        x.cellOf? e.1 = some e.2 := fun e he =>
      ((mem_driversAmong hx.consistent).mp (List.mem_mergeSort.mpr he)).1
    have hcells := (cell a ha).symm.trans ((congrArg x.cellOf? heq).trans (cell b hb))
    exact Prod.ext heq (Option.some.inj hcells)

theorem nearby_congr (pickup : Point Float) (k : Nat) :
    x.nearby pickup k = y.nearby pickup k :=
  congrArg (List.map Prod.fst) (found_congr hx hy same pickup k)

end Sound

/-! ## Histories -/

/-- **An index forgets everything but the last accepted write per driver.**  After any calls
from an index without drivers, a driver is in the cell of the driver's last report from a
valid place that no removal of the driver and no clearing followed, and in none if there is no
such report; an event that is no write of a driver never changes the driver's cell.

So two sequences of calls with the same events for each driver, a clearing being one of every
driver, lead to the same answers, however the events of the drivers are interleaved, wherever
searches stand between them and however many disks the caches keep. -/
theorem answers_depend_on_last_writes (t : Tiling C) (s : GridSettings)
    (calls : List FleetCall) :
    let x := (ofGrid (.ofSettings s t)).after calls
    (∀ d c, x.cellOf? d = some c ↔
      ∃ front p back, FleetCall.events calls = front ++ .update d p :: back ∧
        t.cellOf p = .ok c ∧ ∀ e ∈ back, ¬ e.Writes t d) ∧
    (∀ (d : String) (e : FleetEvent), ¬ e.Writes t d →
      (x.apply e).1.cellOf? d = x.cellOf? d) ∧
    ∀ (s' : GridSettings) (calls' : List FleetCall),
      (∀ d, (FleetCall.events calls).filter (·.concerns d) =
        (FleetCall.events calls').filter (·.concerns d)) →
      let y := (ofGrid (.ofSettings s' t)).after calls'
      (∀ d, x.cellOf? d = y.cellOf? d) ∧
      x.size = y.size ∧
      (∀ c, x.driversIn c = y.driversIn c) ∧
      x.counts.Perm y.counts ∧
      ∀ pickup k, (x.search pickup k).found = (y.search pickup k).found ∧
        x.nearby pickup k = y.nearby pickup k := by
  intro x
  have sound (s : GridSettings) (calls : List FleetCall) :
      ((ofGrid (.ofSettings s t)).after calls).Sound t :=
    (sound_ofGrid s t).after calls
  have cell (s : GridSettings) (calls : List FleetCall) (d : String) :
      ((ofGrid (.ofSettings s t)).after calls).cellOf? d =
        (FleetCall.events calls).foldl (FleetEvent.carry t d) none := by
    have absent : (ofGrid (.ofSettings s t) : DriverIndex C).cellOf? d = none :=
      Roster.cellOf?_empty d
    rw [(sound_ofGrid s t).cellOf?_after, absent]
  refine ⟨fun d c => ?_, fun d e h => ?_, fun s' calls' hevents => ?_⟩
  · rw [cell, FleetEvent.foldl_carry_eq_some_iff]
  · rw [(sound s calls).cellOf?_apply, FleetEvent.carry_of_not_writes h]
  · intro y
    have same : ∀ d, x.cellOf? d = y.cellOf? d := by
      intro d
      rw [cell, cell, ← FleetEvent.foldl_carry_filter, hevents d, FleetEvent.foldl_carry_filter]
    have hx := sound s calls
    have hy := sound s' calls'
    exact ⟨same, size_congr same, hx.driversIn_congr hy same, hx.counts_congr hy same,
      fun pickup k => ⟨hx.found_congr hy same pickup k, hx.nearby_congr hy same pickup k⟩⟩

/-- Two drivers report in either order, with a search between the reports or without a cache. -/
theorem reports_of_two_drivers_commute :
    let t := Tiling.hexagonal .neighborhood
    let x := (ofGrid (.ofSettings {} t)).after
      [.event (.update "a" ⟨0, 0⟩), .search ⟨0, 0⟩ 1, .event (.update "b" ⟨0, 1⟩)]
    let y := (ofGrid (.ofSettings { cacheCapacity := 0 } t)).after
      [.event (.update "b" ⟨0, 1⟩), .event (.update "a" ⟨0, 0⟩)]
    x.size = y.size ∧ (x.search ⟨0, 0⟩ 10).found = (y.search ⟨0, 0⟩ 10).found := by
  intro t x y
  have answers := (answers_depend_on_last_writes t {}
    [.event (.update "a" ⟨0, 0⟩), .search ⟨0, 0⟩ 1, .event (.update "b" ⟨0, 1⟩)]).2.2
    { cacheCapacity := 0 } [.event (.update "b" ⟨0, 1⟩), .event (.update "a" ⟨0, 0⟩)] ?_
  · exact ⟨answers.2.1, (answers.2.2.2.2 ⟨0, 0⟩ 10).1⟩
  · intro d
    by_cases ha : d = "a"
    · subst ha
      rfl
    · by_cases hb : d = "b"
      · subst hb
        rfl
      · simp [FleetCall.events, FleetEvent.concerns, eq_comm (b := d), ha, hb]

end DriverIndex

end GeoDispatch
