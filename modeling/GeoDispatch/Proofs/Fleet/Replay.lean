import GeoDispatch.Proofs.Fleet.Search
import Mathlib.Logic.Function.Basic

/-! # The journal of the fleet

Every event but a clearing is of one of five kinds, and each leaves at most one record
(`DriverIndex.Step`).  A record of level `DEBUG` comes with a change of both maps of the roster, and
an event without one leaves the index as it was (`DriverIndex.Step.told`).

A record of a driver names the cell of the driver after it, so that a reader of the journal can
follow the drivers without seeing the index (`Record.replay`).  One event leads the reader from the
cells before it to the cells after it (`DriverIndex.Step.replay_eq`); hence the journal of a whole
history, read from the first record on, tells where every driver is
(`DriverIndex.journal_tells_all_cells`).  A clearing leaves no record, and a reader would miss it.
-/

namespace GeoDispatch

/-! ## Reading a journal -/

/-- The cells of the drivers after a record, from those before it: the record of a driver tells the
cell of that driver, and no other record tells anything. -/
def Record.replay {C : Type} (cells : String → Option C) : Record C → String → Option C
  | driverMoved d _ c => Function.update cells d (some c)
  | driverRemoved d _ => Function.update cells d none
  | _ => cells

namespace DriverIndex

variable {C : Type} [DecidableEq C] [Hashable C] {x y : DriverIndex C} {e : FleetEvent}
  {records : List (Record C)}

/-! ## What an event does and records -/

/-- What an event does to an index `x`, with the index after it and the records it leaves. -/
inductive Step (x : DriverIndex C) : FleetEvent → DriverIndex C → List (Record C) → Prop where
  /-- A report from a place that has no cell is passed over. -/
  | ignored {d : String} {p : Point Float} {err : GeoError} (out : x.grid.cellOf p = .error err) :
      Step x (.update d p) x [.updateIgnored d err]
  /-- A report from the cell where the driver is anyway says nothing new. -/
  | stayed {d : String} {p : Point Float} {c : C} (inside : x.grid.cellOf p = .ok c)
      (there : x.cellOf? d = some c) : Step x (.update d p) x []
  /-- A report from another cell moves the driver. -/
  | moved {d : String} {p : Point Float} {c : C} (inside : x.grid.cellOf p = .ok c)
      (elsewhere : x.cellOf? d ≠ some c) :
      Step x (.update d p) { x with roster := x.roster.place d c }
        [.driverMoved d (x.cellOf? d) c]
  /-- A driver of the index leaves. -/
  | left {d : String} {c : C} (there : x.cellOf? d = some c) :
      Step x (.remove d) { x with roster := x.roster.remove d } [.driverRemoved d c]
  /-- Who is not in the index cannot leave it. -/
  | absent {d : String} (nowhere : x.cellOf? d = none) : Step x (.remove d) x []

theorem step_apply (x : DriverIndex C) (lasting : e ≠ .clear) :
    Step x e (x.apply e).1 (x.apply e).2 := by
  cases e with
  | update d p =>
    rw [apply, update]
    cases place : x.grid.cellOf p with
    | error err => exact .ignored place
    | ok c =>
      dsimp only
      split
      · rename_i there
        exact .stayed place there
      · rename_i elsewhere
        exact .moved place elsewhere
  | remove d =>
    rw [apply, remove]
    cases there : x.roster.cellOf? d with
    | none => exact .absent there
    | some c => exact .left there
  | clear => exact absurd rfl lasting

/-- What the records of one event tell about the index `x` before it and the index `y` after it. -/
structure Told (x : DriverIndex C) (e : FleetEvent) (y : DriverIndex C)
    (records : List (Record C)) : Prop where
  /-- There is at most one record. -/
  length_le : records.length ≤ 1
  /-- There is one of level `DEBUG` exactly when the index has changed. -/
  debug_iff : (∃ r ∈ records, r.level = .debug) ↔ y ≠ x
  /-- When the index has changed, so have the cells of the drivers and the drivers of the cells. -/
  maps_ne : y ≠ x → (∃ d, y.cellOf? d ≠ x.cellOf? d) ∧ ∃ c, y.driversIn c ≠ x.driversIn c
  /-- A record of level `DEBUG` is one of a driver who came to a cell or left. -/
  of_debug : ∀ r ∈ records, r.level = .debug →
    (∃ d previous c, r = .driverMoved d previous c) ∨ ∃ d c, r = .driverRemoved d c
  /-- The former cell of a driver who came to a cell is the one before the event, and is another
  one. -/
  moved : ∀ d previous c, .driverMoved d previous c ∈ records →
    previous = x.cellOf? d ∧ previous ≠ some c ∧ y.cellOf? d = some c
  /-- The cell of a driver who left is the one before the event. -/
  removed : ∀ d c, .driverRemoved d c ∈ records → x.cellOf? d = some c ∧ y.cellOf? d = none
  /-- A report from a place without a cell leaves one record, of level `WARN`, and changes
  nothing. -/
  ignored : ∀ d p err, e = .update d p → x.grid.cellOf p = .error err →
    records = [.updateIgnored d err] ∧ records.map Record.level = [.warn] ∧ y = x

/-- Where a driver has another cell, some cell has other drivers. -/
theorem exists_driversIn_ne (hx : x.roster.Consistent) (hy : y.roster.Consistent) {d : String}
    (apart : y.cellOf? d ≠ x.cellOf? d) : ∃ c, y.driversIn c ≠ x.driversIn c := by
  by_contra! same
  refine apart (Option.ext fun c => ?_)
  rw [← mem_driversIn hx, ← mem_driversIn hy, same]

/-- Records of level `WARN` tell of no change. -/
theorem told_of_warn (one : records.length ≤ 1) (warn : ∀ r ∈ records, r.level = .warn)
    (ignored : ∀ d p err, e = .update d p → x.grid.cellOf p = .error err →
      records = [.updateIgnored d err]) : Told x e x records := by
  have none_debug : ∀ r ∈ records, r.level ≠ .debug := by
    intro r hr debug
    rw [warn r hr] at debug
    cases debug
  refine ⟨one, ?_, ?_, ?_, ?_, ?_, ?_⟩
  · exact iff_of_false (fun ⟨r, hr, debug⟩ => none_debug r hr debug) (fun h => h rfl)
  · exact fun h => absurd rfl h
  · exact fun r hr debug => absurd debug (none_debug r hr)
  · exact fun d previous c hr => absurd rfl (none_debug _ hr)
  · exact fun d c hr => absurd rfl (none_debug _ hr)
  · intro d p err he out
    obtain rfl := ignored d p err he out
    exact ⟨rfl, rfl, rfl⟩

/-- The record of a driver who has another cell tells of a change. -/
theorem told_of_driver {r : Record C} {d : String} (apart : y.cellOf? d ≠ x.cellOf? d)
    (hx : x.roster.Consistent) (hy : y.roster.Consistent)
    (kind : (∃ d previous c, r = .driverMoved d previous c) ∨ ∃ d c, r = .driverRemoved d c)
    (moved : ∀ d previous c, r = .driverMoved d previous c →
      previous = x.cellOf? d ∧ previous ≠ some c ∧ y.cellOf? d = some c)
    (removed : ∀ d c, r = .driverRemoved d c → x.cellOf? d = some c ∧ y.cellOf? d = none)
    (inside : ∀ d p err, e = .update d p → x.grid.cellOf p ≠ .error err) :
    Told x e y [r] := by
  have debug : r.level = .debug := by
    rcases kind with ⟨d, previous, c, rfl⟩ | ⟨d, c, rfl⟩ <;> rfl
  have changed : y ≠ x := by
    rintro rfl
    exact apart rfl
  refine ⟨le_rfl, ?_, ?_, ?_, ?_, ?_, ?_⟩
  · exact iff_of_true ⟨r, List.mem_singleton_self r, debug⟩ changed
  · exact fun _ => ⟨⟨d, apart⟩, exists_driversIn_ne hx hy apart⟩
  · rintro r' hr -
    obtain rfl := List.mem_singleton.mp hr
    exact kind
  · exact fun d previous c hr => moved d previous c (List.mem_singleton.mp hr).symm
  · exact fun d c hr => removed d c (List.mem_singleton.mp hr).symm
  · exact fun d p err he out => absurd out (inside d p err he)

namespace Step

/-- What an event does is told by its records. -/
theorem told (h : Step x e y records) (hx : x.roster.Consistent) : Told x e y records := by
  cases h with
  | ignored out =>
    refine told_of_warn le_rfl (by simp [Record.level]) ?_
    rintro d p err he out'
    cases he
    rw [out] at out'
    cases out'
    rfl
  | stayed inside there =>
    refine told_of_warn (Nat.zero_le 1) (by simp) ?_
    rintro d p err he out
    cases he
    rw [inside] at out
    cases out
  | absent nowhere =>
    exact told_of_warn (Nat.zero_le 1) (by simp) (by simp)
  | @moved d p c inside elsewhere =>
    have arrived : (x.roster.place d c).cellOf? d = some c := by
      rw [Roster.cellOf?_place, if_pos rfl]
    refine told_of_driver (d := d) (fun same => elsewhere (same.symm.trans arrived))
      hx (hx.place d c) (.inl ⟨d, _, c, rfl⟩) ?_ ?_ ?_
    · rintro d' previous c' same
      cases same
      exact ⟨rfl, elsewhere, arrived⟩
    · rintro d' c' same
      cases same
    · rintro d' p' err he out
      cases he
      rw [inside] at out
      cases out
  | @left d c there =>
    have gone : (x.roster.remove d).cellOf? d = none := by
      rw [Roster.cellOf?_remove, if_pos rfl]
    refine told_of_driver (d := d) (fun same => ?_) hx (hx.remove d)
      (.inr ⟨d, c, rfl⟩) ?_ ?_ ?_
    · have none_some := (same.symm.trans gone).symm.trans there
      cases none_some
    · rintro d' previous c' same
      cases same
    · rintro d' c' same
      cases same
      exact ⟨there, gone⟩
    · rintro d' p' err he
      cases he

/-- The records of an event lead a reader from the cells before it to the cells after it. -/
theorem replay_eq (h : Step x e y records) : records.foldl Record.replay x.cellOf? = y.cellOf? := by
  cases h with
  | ignored | stayed | absent => rfl
  | @moved d p c inside elsewhere =>
    funext d'
    exact (Function.update_apply x.cellOf? d (some c) d').trans
      (x.roster.cellOf?_place d d' c).symm
  | @left d c there =>
    funext d'
    exact (Function.update_apply x.cellOf? d none d').trans (x.roster.cellOf?_remove d d').symm

end Step

/-! ## The journal of a history -/

theorem run_cons (x : DriverIndex C) (e : FleetEvent) (es : List FleetEvent) :
    x.run (e :: es) =
      (((x.apply e).1.run es).1, (x.apply e).2 ++ ((x.apply e).1.run es).2) := rfl

theorem run_append (x : DriverIndex C) (es es' : List FleetEvent) :
    x.run (es ++ es') =
      (((x.run es).1.run es').1, (x.run es).2 ++ ((x.run es).1.run es').2) := by
  induction es generalizing x with
  | nil => rfl
  | cons e es ih =>
    rw [List.cons_append, run_cons, ih, run_cons, List.append_assoc]

/-- A reader who knows the cells before a history without clearings knows them after it. -/
theorem replay_run (x : DriverIndex C) {es : List FleetEvent} (lasting : ∀ e ∈ es, e ≠ .clear) :
    (x.run es).2.foldl Record.replay x.cellOf? = (x.run es).1.cellOf? := by
  induction es generalizing x with
  | nil => rfl
  | cons e es ih =>
    obtain ⟨first, others⟩ := List.forall_mem_cons.mp lasting
    rw [run_cons, List.foldl_append, (x.step_apply first).replay_eq, ih _ others]

/-- **The journal is faithful.**  In every history of reports and removals of an index without
drivers, every event leaves the records that tell what it did to the index at that moment, between
the records of the events before it and of those after it; a report from a place out of range
leaves just a warning.  Who reads the records of the history in their order, from no cells on,
ends with the cells of all drivers. -/
theorem journal_tells_all_cells (g : Grid C) (es : List FleetEvent)
    (lasting : ∀ e ∈ es, e ≠ .clear) :
    (∀ front e back, es = front ++ e :: back →
      let x := ((ofGrid g).run front).1
      Told x e (x.apply e).1 (x.apply e).2 ∧
      ((ofGrid g).run es).2 =
        ((ofGrid g).run front).2 ++ (x.apply e).2 ++ ((x.apply e).1.run back).2 ∧
      ∀ d p, e = .update d p → p.isValid = false →
        x.apply e = (x, [.updateIgnored d (.invalidCoordinates p.lat p.lng)])) ∧
    ∀ d, ((ofGrid g).run es).2.foldl Record.replay (fun _ => none) d =
      ((ofGrid g).run es).1.cellOf? d := by
  refine ⟨?_, fun d => ?_⟩
  · rintro front e back rfl x
    have hx : x.roster.Consistent := consistent_run Roster.consistent_empty front
    refine ⟨(x.step_apply (lasting e (by simp))).told hx, ?_, ?_⟩
    · rw [run_append, List.append_assoc]
      rfl
    · rintro d p rfl invalid
      have out : x.grid.cellOf p = .error (.invalidCoordinates p.lat p.lng) :=
        x.grid.tiling.cellOf_of_not_valid invalid
      rw [apply, update, out]
  · have start : (ofGrid g : DriverIndex C).cellOf? = fun _ => none := funext Roster.cellOf?_empty
    rw [← start, replay_run _ lasting]

/-- Two drivers come to one cell, one of them leaves it for another one and the other one goes off
duty, while a third one reports a place beyond the pole. -/
theorem journal_of_two_drivers :
    let es : List FleetEvent := [.update "a" ⟨0, 0⟩, .update "b" ⟨0, 0⟩, .update "c" ⟨91, 0⟩,
      .update "a" ⟨0, 1⟩, .remove "b"]
    let x := ((ofGrid (Grid.hexagonal {})).run (es.take 3)).1
    (∀ e ∈ es, e ≠ .clear) ∧
      Told x (.update "a" ⟨0, 1⟩) (x.update "a" ⟨0, 1⟩).1 (x.update "a" ⟨0, 1⟩).2 ∧
      ∀ d, ((ofGrid (Grid.hexagonal {})).run es).2.foldl Record.replay (fun _ => none) d =
        ((ofGrid (Grid.hexagonal {})).run es).1.cellOf? d := by
  intro es x
  have lasting : ∀ e ∈ es, e ≠ .clear := by simp [es]
  obtain ⟨each, cells⟩ := journal_tells_all_cells (Grid.hexagonal {}) es lasting
  exact ⟨lasting, (each (es.take 3) (.update "a" ⟨0, 1⟩) [.remove "b"] rfl).1, cells⟩

end DriverIndex

end GeoDispatch
