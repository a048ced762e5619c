import GeoDispatch.Hex.Neighbor
import GeoDispatch.Hex.Path
import Mathlib.Data.List.Chain
import Mathlib.Data.List.ReduceOption

/-!
# Paths and their gaps

A walk goes from cell to neighbouring cell, one for each step (`Cell.IsWalk`).  The straight
line between two cells has one place for the start and one for each step
(`exists_steps?_of_places?`), and a path is what its places hold, in order.  Beside a pentagon a
place may hold no cell, and then the path is too short to be a walk: so a path is a walk exactly
when every place on its line holds a cell (`path?_isWalk_iff`), as far as the line is to be
trusted elsewhere.
-/

namespace GeoDispatch

theorem Coord.length_line (x y : Coord) : (x.line y).length = (y - x).length + 1 := by
  simp [line]

/-- The line between two cells has a place for the start and one for each step. -/
theorem Address.exists_steps?_of_line? {c d : Address} {places : List (Option Address)}
    (h : c.line? d = some places) : ∃ n, c.steps? d = some n ∧ places.length = n + 1 := by
  simp only [line?, Option.bind_eq_bind, Option.bind_eq_some_iff, Option.some.injEq] at h
  obtain ⟨x, hx, y, hy, rfl⟩ := h
  refine ⟨(y - x).length, ?_, ?_⟩
  · rw [steps?, hx, hy]
    rfl
  · rw [List.length_map, Coord.length_line]

namespace Cell

/-- Whether a list of cells leads from one cell to another in so many steps, each to a
neighbour. -/
structure IsWalk (c d : Cell) (n : Nat) (cells : List Cell) : Prop where
  head : cells.head? = some c
  last : cells.getLast? = some d
  neighbors : cells.IsChain fun c d => c.isNeighbor d
  length_eq : cells.length = n + 1

theorem exists_steps?_of_places? {c d : Cell} {places : List (Option Cell)}
    (h : c.places? d = some places) : ∃ n, c.steps? d = some n ∧ places.length = n + 1 := by
  obtain ⟨line, hline, rfl⟩ := Option.map_eq_some_iff.mp h
  obtain ⟨n, hsteps, hlen⟩ := Address.exists_steps?_of_line? hline
  exact ⟨n, hsteps, (List.length_map _).trans hlen⟩

theorem pathOf_eq_some_iff {places : List (Option Cell)} {path : List Cell} :
    pathOf places = some path ↔ places.reduceOption = path ∧ path ≠ [] := by
  rw [pathOf, List.reduceOption]
  split
  · rename_i hempty
    rw [List.isEmpty_iff] at hempty
    rw [hempty]
    exact iff_of_false (by simp) fun ⟨hpath, hne⟩ => hne hpath.symm
  · rename_i hempty
    rw [List.isEmpty_iff] at hempty
    constructor
    · rintro ⟨⟩
      exact ⟨rfl, hempty⟩
    · rintro ⟨rfl, -⟩
      rfl

/-- Places that all hold a cell hold the cells of the path, one each. -/
theorem eq_map_some_of_none_notMem {places : List (Option Cell)} (held : none ∉ places) :
    places = places.reduceOption.map some := by
  induction places with
  | nil => rfl
  | cons place places ih =>
    obtain ⟨hplace, hplaces⟩ := not_or.mp (mt List.mem_cons.mpr held)
    obtain ⟨c, rfl⟩ := Option.ne_none_iff_exists'.mp (Ne.symm hplace)
    rw [List.reduceOption_cons_of_some, List.map_cons, ← ih hplaces]

/-- **A path has no gap exactly when every place of its line holds a cell.**  A path comes from a
line with one place more than there are steps between the cells.  Whatever the places of a line
of that length hold, as long as it leads from the one cell to the other over neighbours when
they all hold a cell: the path is what they hold, in order, and it is a walk between the cells
in that number of steps exactly when none of them is empty. -/
theorem path?_isWalk_iff (c d : Cell) :
    (∀ path, c.path? d = some path ↔
      ∃ n places, c.steps? d = some n ∧ c.places? d = some places ∧ places.length = n + 1 ∧
        pathOf places = some path) ∧
    ∀ (n : Nat) (places : List (Option Cell)) (path : List Cell),
      places.length = n + 1 → (∀ cells, places = cells.map some → IsWalk c d n cells) →
        pathOf places = some path →
          path = places.reduceOption ∧ (IsWalk c d n path ↔ none ∉ places) := by
  refine ⟨fun path => ?_, fun n places path hlen whole hpath => ?_⟩
  · rw [path?, Option.bind_eq_some_iff]
    constructor
    · rintro ⟨places, hplaces, hof⟩
      obtain ⟨n, hsteps, hlen⟩ := exists_steps?_of_places? hplaces
      exact ⟨n, places, hsteps, hplaces, hlen, hof⟩
    · rintro ⟨n, places, -, hplaces, -, hof⟩
      exact ⟨places, hplaces, hof⟩
  · obtain ⟨rfl, -⟩ := pathOf_eq_some_iff.mp hpath
    refine ⟨rfl, fun walk => ?_, fun held => whole _ (eq_map_some_of_none_notMem held)⟩
    rw [← List.reduceOption_length_lt_iff, walk.length_eq, hlen]
    exact lt_irrefl _

open Direction in
/-- Between two cells of the coarsest resolution, two steps apart, the line has a cell in every
place. -/
theorem straight_path_is_walk :
    let c : Cell := ⟨⟨20, [center, ij, center, i, center, ik, center], by decide⟩, .city, rfl⟩
    let m : Cell := ⟨⟨20, [center, ij, center, i, center, ik, ij], by decide⟩, .city, rfl⟩
    let d : Cell := ⟨⟨20, [center, ij, center, i, center, i, k], by decide⟩, .city, rfl⟩
    c.path? d = some [c, m, d] ∧ IsWalk c d 2 [c, m, d] := by
  intro c m d
  have hpath : c.path? d = some [c, m, d] := by decide +kernel
  have whole : ∀ cells, [some c, some m, some d] = cells.map some → IsWalk c d 2 cells := by
    intro cells hcells
    obtain rfl : [c, m, d] = cells :=
      List.map_injective_iff.mpr (fun _ _ => Option.some.inj) hcells
    exact ⟨rfl, rfl, by decide +kernel, rfl⟩
  obtain ⟨n, places, hsteps, hplaces, hlen, hof⟩ :=
    ((path?_isWalk_iff c d).1 _).mp hpath
  have hsteps' : c.steps? d = some 2 := by decide +kernel
  have hplaces' : c.places? d = some [some c, some m, some d] := by decide +kernel
  obtain rfl := Option.some.inj (hsteps'.symm.trans hsteps)
  obtain rfl := Option.some.inj (hplaces'.symm.trans hplaces)
  exact ⟨hpath, ((path?_isWalk_iff c d).2 2 _ _ hlen whole hof).2.mpr (by simp)⟩

open Direction in
/-- The line from a pentagon to a cell eleven steps away has five places without a cell, the
first one beside the pentagon: seven cells are returned, and the first two are no neighbours. -/
theorem path_past_pentagon_has_gaps :
    let c : Cell := ⟨⟨4, List.replicate 9 center, by decide⟩, .block, rfl⟩
    let d : Cell :=
      ⟨⟨4, [center, center, center, center, center, ik, j, j, center], by decide⟩, .block, rfl⟩
    c.text = "89080000003ffff" ∧ d.text = "89080002a43ffff" ∧ c.steps? d = some 11 ∧
      ∃ path, c.path? d = some path ∧ path.length = 7 ∧
        ¬ path.IsChain (fun c d => c.isNeighbor d) ∧ ¬ IsWalk c d 11 path := by
  intro c d
  have hpath : (c.path? d).any
      (fun path => path.length == 7 && !decide (path.IsChain fun c d => c.isNeighbor d)) := by
    decide +kernel
  obtain ⟨path, hsome, hgap⟩ := (Option.any_eq_true _ _).mp hpath
  simp only [Bool.and_eq_true, beq_iff_eq, Bool.not_eq_true', decide_eq_false_iff_not] at hgap
  obtain ⟨hlen, hchain⟩ := hgap
  exact ⟨by decide +kernel, by decide +kernel, by decide +kernel, path, hsome, hlen, hchain,
    fun walk => hchain walk.neighbors⟩

end Cell

end GeoDispatch
