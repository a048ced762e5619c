import GeoDispatch.Grid.HexGrid

/-! # A cache that only remembers

A cache is faithful to a function when every disk it holds is the one that the function
computes for its key.  The empty cache is, and a request keeps it so, whether it finds the
disk or computes it and whichever disk is dropped.  A faithful cache answers like the
function (`DiskCache.fetch_fst`), so that no history of requests can be told from the
answers.
-/

namespace GeoDispatch

variable {C : Type} [DecidableEq C]

namespace DiskCache

/-- Every disk held is the one computed for its centre and radius. -/
def Faithful (compute : C → Nat → List C) (cache : DiskCache C) : Prop :=
  ∀ c k disk, ((c, k), disk) ∈ cache.entries → disk = compute c k

variable {compute : C → Nat → List C} {cache : DiskCache C}

omit [DecidableEq C] in
theorem faithful_empty (compute : C → Nat → List C) (capacity : Nat) :
    (empty C capacity).Faithful compute := by
  intro c k disk hmem
  exact absurd hmem List.not_mem_nil

/-- A faithful cache answers what would be computed. -/
theorem fetch_fst (h : cache.Faithful compute) (c : C) (k : Nat) :
    (cache.fetch compute c k).1 = compute c k := by
  unfold fetch
  cases held : cache.entries.lookup (c, k) with
  | none => rfl
  | some disk =>
    obtain ⟨front, back, hsplit, -⟩ := List.lookup_eq_some_iff.mp held
    exact h c k disk (hsplit ▸ List.mem_append_right front List.mem_cons_self)

theorem faithful_promote (h : cache.Faithful compute) (c : C) (k : Nat) :
    (cache.promote (c, k) (compute c k)).Faithful compute := by
  intro c' k' disk hmem
  rcases List.mem_cons.mp (List.mem_of_mem_take hmem) with he | he
  · cases he
    rfl
  · exact h c' k' disk (List.mem_filter.mp he).1

theorem faithful_fetch (h : cache.Faithful compute) (c : C) (k : Nat) :
    (cache.fetch compute c k).2.Faithful compute := by
  have hpromote := faithful_promote h c k
  rw [← fetch_fst h c k] at hpromote
  exact hpromote

end DiskCache

namespace Grid

/-- The cache of a grid holds disks of its tiling. -/
def Faithful (g : Grid C) : Prop := g.cache.Faithful g.tiling.disk

omit [DecidableEq C] in
theorem faithful_ofSettings (s : GridSettings) (t : Tiling C) : (ofSettings s t).Faithful :=
  DiskCache.faithful_empty t.disk s.cacheCapacity

theorem disk_fst {g : Grid C} (h : g.Faithful) (c : C) (k : Nat) :
    (g.disk c k).1 = g.tiling.disk c k :=
  DiskCache.fetch_fst h c k

theorem faithful_disk {g : Grid C} (h : g.Faithful) (c : C) (k : Nat) :
    (g.disk c k).2.Faithful :=
  DiskCache.faithful_fetch h c k

end Grid

end GeoDispatch
