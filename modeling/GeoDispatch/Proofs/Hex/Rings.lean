import GeoDispatch.Proofs.Hex.Disk
import GeoDispatch.Proofs.Hex.Path
import Mathlib.Order.Lattice.Nat

/-!
# Disks and rings by distance

A cell is as far from another as the shortest walk over neighbours is long (`Cell.IsAway`).  The
layers by which a disk grows are the cells of one distance after the other: when the cells seen so
far are those within `n` steps and the last layer those at distance `n`, the next layer holds
exactly the cells at distance `n + 1` (`Cell.Searched.next`).  So a disk holds what is reached in
at most so many steps (`Cell.listsReached_disk`).

That is all that rings need of the disks which they are taken from.  With any disks that list once
what is reached in at most so many steps, the difference of two disks is what is exactly so far
away, and these rings partition a disk (`Cell.ListsReached.partition`).  Nothing is counted, and
pentagons need no case of their own.
-/

namespace GeoDispatch

namespace Cell

variable {c d : Cell} {k n : Nat}

/-! ## Walks and distances -/

/-- Whether some walk leads from one cell to another in so many steps. -/
def Reaches (c d : Cell) (n : Nat) : Prop := ∃ cells, IsWalk c d n cells

/-- Whether the shortest walk from one cell to another has so many steps. -/
def IsAway (c d : Cell) (n : Nat) : Prop := IsLeast {m | c.Reaches d m} n

theorem reaches_zero_iff : c.Reaches d 0 ↔ d = c := by
  constructor
  · rintro ⟨cells, walk⟩
    obtain ⟨b, rfl⟩ := List.length_eq_one_iff.mp walk.length_eq
    exact (Option.some.inj walk.last).symm.trans (Option.some.inj walk.head)
  · rintro rfl
    exact ⟨[d], rfl, rfl, .singleton d, rfl⟩

/-- The last step of a walk. -/
theorem reaches_succ_iff : c.Reaches d (n + 1) ↔ ∃ b, c.Reaches b n ∧ d ∈ b.neighbors := by
  constructor
  · rintro ⟨cells, walk⟩
    obtain ⟨front, last, rfl⟩ : ∃ front last, cells = front ++ [last] :=
      (List.eq_nil_or_concat' cells).resolve_left fun h => by
        simpa [h] using walk.length_eq
    obtain rfl : last = d := by simpa using walk.last
    have hlen : front.length = n + 1 := by simpa using walk.length_eq
    obtain ⟨front, b, rfl⟩ : ∃ init b, front = init ++ [b] :=
      (List.eq_nil_or_concat' front).resolve_left fun h => by simp [h] at hlen
    obtain ⟨chain, -, step⟩ := List.isChain_append.mp walk.neighbors
    refine ⟨b, ⟨front ++ [b], ?_, by simp, chain, hlen⟩, ?_⟩
    · have head := walk.head
      rwa [List.head?_append_of_ne_nil _ (by simp)] at head
    · simpa [isNeighbor] using step b (by simp) last (by simp)
  · rintro ⟨b, ⟨cells, walk⟩, hd⟩
    have hne : cells ≠ [] := fun h => by simpa [h] using walk.length_eq
    refine ⟨cells ++ [d], ?_, by simp, ?_, by simp [walk.length_eq]⟩
    · rw [List.head?_append_of_ne_nil _ hne, walk.head]
    · refine List.isChain_append.mpr ⟨walk.neighbors, .singleton d, fun a ha a' ha' => ?_⟩
      obtain rfl : b = a := Option.some.inj (walk.last.symm.trans ha)
      obtain rfl : d = a' := by simpa using ha'
      simpa [isNeighbor] using hd

theorem isAway_zero_iff : c.IsAway d 0 ↔ d = c := by
  rw [← reaches_zero_iff]
  exact ⟨fun h => h.1, fun h => ⟨h, fun _ _ => Nat.zero_le _⟩⟩

theorem exists_isAway (h : c.Reaches d n) : ∃ m ≤ n, c.IsAway d m :=
  ⟨sInf {m | c.Reaches d m}, Nat.sInf_le h, Nat.sInf_mem ⟨n, h⟩, fun _ => Nat.sInf_le⟩

theorem exists_isAway_iff : (∃ m ≤ n, c.IsAway d m) ↔ ∃ m ≤ n, c.Reaches d m := by
  constructor
  · rintro ⟨m, hm, away⟩
    exact ⟨m, hm, away.1⟩
  · rintro ⟨m, hm, reached⟩
    obtain ⟨l, hl, away⟩ := exists_isAway reached
    exact ⟨l, hl.trans hm, away⟩

/-- A cell is at distance `n + 1` when it is next to one at distance `n` and not nearer. -/
theorem isAway_succ_iff :
    c.IsAway d (n + 1) ↔ (∃ b, c.IsAway b n ∧ d ∈ b.neighbors) ∧ ¬ ∃ m ≤ n, c.Reaches d m := by
  constructor
  · rintro ⟨reached, least⟩
    have farther : ¬ ∃ m ≤ n, c.Reaches d m := by
      rintro ⟨m, hm, h⟩
      have := least h
      omega
    obtain ⟨b, hb, hd⟩ := reaches_succ_iff.mp reached
    refine ⟨⟨b, ⟨hb, fun m hm => Nat.le_of_not_lt fun shorter => farther ?_⟩, hd⟩, farther⟩
    exact ⟨m + 1, shorter, reaches_succ_iff.mpr ⟨b, hm, hd⟩⟩
  · rintro ⟨⟨b, hb, hd⟩, farther⟩
    refine ⟨reaches_succ_iff.mpr ⟨b, hb.1, hd⟩, fun m hm => Nat.lt_of_not_le fun nearer => ?_⟩
    exact farther ⟨m, nearer, hm⟩

/-! ## The search -/

/-- How far a search from `c` has come after `n` layers: it has seen what is within `n` steps,
and its last layer is what is `n` steps away. -/
structure Searched (c : Cell) (n : Nat) (layer : List Cell) (seen : Std.HashSet Cell) : Prop where
  mem_layer : ∀ d, d ∈ layer ↔ c.IsAway d n
  mem_seen : ∀ d, d ∈ seen ↔ ∃ m ≤ n, c.Reaches d m

theorem searched_start (c : Cell) :
    Searched c 0 [c] (Std.HashSet.emptyWithCapacity.insert c) where
  mem_layer d := by rw [isAway_zero_iff, List.mem_singleton]
  mem_seen d := by
    simp only [Std.HashSet.mem_insert, Std.HashSet.not_mem_emptyWithCapacity, or_false,
      beq_iff_eq, Nat.le_zero, exists_eq_left, reaches_zero_iff]
    exact eq_comm

/-- The step of the search. -/
theorem Searched.next {layer : List Cell} {seen : Std.HashSet Cell} (h : Searched c n layer seen) :
    Searched c (n + 1) (collect seen (layer.flatMap neighbors)).1
      (collect seen (layer.flatMap neighbors)).2 := by
  have fresh (d : Cell) :
      d ∈ (collect seen (layer.flatMap neighbors)).1 ↔ c.IsAway d (n + 1) := by
    rw [mem_collect_fst, isAway_succ_iff, List.mem_flatMap, h.mem_seen]
    simp only [h.mem_layer]
  refine ⟨fresh, fun d => ?_⟩
  -- a member of the grown set was seen before or is fresh
  have grown : d ∈ (collect seen (layer.flatMap neighbors)).2 ↔
      d ∈ seen ∨ d ∈ (collect seen (layer.flatMap neighbors)).1 := by
    rw [mem_collect_snd, mem_collect_fst]
    by_cases hd : d ∈ seen <;> simp [hd]
  rw [grown, fresh, h.mem_seen, ← exists_isAway_iff, ← exists_isAway_iff]
  constructor
  · rintro (⟨m, hm, away⟩ | away)
    · exact ⟨m, by omega, away⟩
    · exact ⟨n + 1, le_rfl, away⟩
  · rintro ⟨m, hm, away⟩
    rcases Nat.lt_or_eq_of_le hm with hlt | rfl
    · exact .inl ⟨m, Nat.lt_succ_iff.mp hlt, away⟩
    · exact .inr away

/-- Further layers hold the cells of the further distances. -/
theorem Searched.mem_grow_iff {layer : List Cell} {seen : Std.HashSet Cell}
    (h : Searched c n layer seen) :
    d ∈ grow k layer seen ↔ ∃ m, n < m ∧ m ≤ n + k ∧ c.IsAway d m := by
  induction k generalizing n layer seen with
  | zero =>
    refine iff_of_false List.not_mem_nil ?_
    rintro ⟨m, hlt, hle, -⟩
    omega
  | succ k ih =>
    rw [grow, List.mem_append, h.next.mem_layer, ih h.next]
    constructor
    · rintro (away | ⟨m, hlt, hle, away⟩)
      · exact ⟨n + 1, by omega, by omega, away⟩
      · exact ⟨m, by omega, by omega, away⟩
    · rintro ⟨m, hlt, hle, away⟩
      rcases Nat.lt_or_eq_of_le (Nat.succ_le_of_lt hlt) with hlt' | rfl
      · exact .inr ⟨m, hlt', by omega, away⟩
      · exact .inl away

/-! ## Rings of any disks -/

/-- What rings need of the disks which they are taken from: a disk lists, once each, the cells that
are reached in at most so many steps. -/
structure ListsReached (disk : Cell → Nat → List Cell) : Prop where
  nodup : ∀ c k, (disk c k).Nodup
  mem_iff : ∀ c k d, d ∈ disk c k ↔ ∃ n ≤ k, c.Reaches d n

namespace ListsReached

variable {disk : Cell → Nat → List Cell} (h : ListsReached disk)
include h

/-- A disk holds the cells at a distance of at most its radius. -/
theorem mem_iff_isAway : d ∈ disk c k ↔ ∃ m ≤ k, c.IsAway d m :=
  (h.mem_iff c k d).trans exists_isAway_iff.symm

/-- A ring holds the cells at its distance. -/
theorem mem_ringOf_iff : d ∈ ringOf disk c k ↔ c.IsAway d k := by
  cases k with
  | zero => rw [ringOf, if_pos rfl, List.mem_singleton, isAway_zero_iff]
  | succ k =>
    have outer : d ∈ ringOf disk c (k + 1) ↔ d ∈ disk c (k + 1) ∧ d ∉ disk c k := by
      simp [ringOf]
    rw [outer, h.mem_iff_isAway, h.mem_iff_isAway]
    constructor
    · rintro ⟨⟨m, hm, away⟩, farther⟩
      obtain rfl : m = k + 1 := by
        refine Nat.le_antisymm hm (Nat.lt_of_not_le fun nearer => farther ⟨m, nearer, away⟩)
      exact away
    · refine fun away => ⟨⟨k + 1, le_rfl, away⟩, ?_⟩
      rintro ⟨m, hm, nearer⟩
      have := away.unique nearer
      omega

theorem nodup_ringOf (c : Cell) (k : Nat) : (ringOf disk c k).Nodup := by
  rw [ringOf]
  split
  · exact List.nodup_singleton c
  · exact (h.nodup c k).filter _

/-- No cell lies in two rings. -/
theorem eq_of_mem_ringOf {i j : Nat} (hi : d ∈ ringOf disk c i) (hj : d ∈ ringOf disk c j) :
    i = j :=
  (h.mem_ringOf_iff.mp hi).unique (h.mem_ringOf_iff.mp hj)

theorem mem_iff_exists_ringOf : d ∈ disk c k ↔ ∃ j ≤ k, d ∈ ringOf disk c j := by
  simp only [h.mem_iff_isAway, h.mem_ringOf_iff]

theorem perm_flatMap_ringOf (c : Cell) (k : Nat) :
    (disk c k).Perm ((List.range (k + 1)).flatMap (ringOf disk c)) := by
  have distinct : ((List.range (k + 1)).flatMap (ringOf disk c)).Nodup := by
    refine List.nodup_flatMap.mpr ⟨fun j _ => h.nodup_ringOf c j, List.nodup_range.imp ?_⟩
    exact fun hne => List.disjoint_left.mpr fun d hi hj => hne (h.eq_of_mem_ringOf hi hj)
  refine (List.perm_ext_iff_of_nodup (h.nodup c k) distinct).mpr fun d => ?_
  rw [h.mem_iff_exists_ringOf, List.mem_flatMap]
  simp only [List.mem_range, Nat.lt_succ_iff]

/-- **Rings partition a disk,** whatever gives the disks, as long as they list what is reached. -/
theorem partition (c : Cell) (k : Nat) :
    (∀ j, (ringOf disk c j).Nodup ∧ ∀ d, d ∈ ringOf disk c j ↔ c.IsAway d j) ∧
    (∀ d ∈ disk c k, ∃! j, j ≤ k ∧ d ∈ ringOf disk c j) ∧
    (∀ j ≤ k, ∀ d ∈ ringOf disk c j, d ∈ disk c k) ∧
    (disk c k).Perm ((List.range (k + 1)).flatMap (ringOf disk c)) := by
  refine ⟨fun j => ⟨h.nodup_ringOf c j, fun d => h.mem_ringOf_iff⟩, fun d hd => ?_,
    fun j hj d hd => h.mem_iff_exists_ringOf.mpr ⟨j, hj, hd⟩, h.perm_flatMap_ringOf c k⟩
  obtain ⟨j, hj, hmem⟩ := h.mem_iff_exists_ringOf.mp hd
  exact ⟨j, ⟨hj, hmem⟩, fun i hi => h.eq_of_mem_ringOf hi.2 hmem⟩

end ListsReached

/-! ## Disks and their rings -/

/-- The disks that are searched layer by layer list what is reached. -/
theorem listsReached_disk : ListsReached disk where
  nodup := nodup_disk
  mem_iff c k d := by
    rw [disk, List.mem_cons, (searched_start c).mem_grow_iff, ← isAway_zero_iff,
      ← exists_isAway_iff]
    constructor
    · rintro (away | ⟨m, -, hle, away⟩)
      · exact ⟨0, Nat.zero_le k, away⟩
      · exact ⟨m, by omega, away⟩
    · rintro ⟨m, hm, away⟩
      rcases Nat.eq_zero_or_pos m with rfl | hpos
      · exact .inl away
      · exact .inr ⟨m, hpos, by omega, away⟩

/-- **Rings partition a disk.**  A disk holds each cell that is reached in at most `k` steps, once,
and a ring each cell whose shortest walk has exactly `k` steps, once.  So a cell of the disk lies
in exactly one of the rings up to `k`, the rings hold nothing else, and put together they are the
disk: around a pentagon as anywhere. -/
theorem rings_partition_disk (c : Cell) (k : Nat) :
    (c.disk k).Nodup ∧ (∀ d, d ∈ c.disk k ↔ ∃ n ≤ k, c.Reaches d n) ∧
    (∀ j, (c.ring j).Nodup ∧ ∀ d, d ∈ c.ring j ↔ c.IsAway d j) ∧
    (∀ d ∈ c.disk k, ∃! j, j ≤ k ∧ d ∈ c.ring j) ∧
    (∀ j ≤ k, ∀ d ∈ c.ring j, d ∈ c.disk k) ∧
    (c.disk k).Perm ((List.range (k + 1)).flatMap c.ring) := by
  have lists := listsReached_disk
  exact ⟨lists.nodup c k, lists.mem_iff c k, lists.partition c k⟩

open Direction in
/-- The neighbour of a pentagon, which has five of them, lies in one of the rings up to 1. -/
theorem neighbor_of_pentagon_in_one_ring :
    let c : Cell := ⟨⟨4, List.replicate 9 center, by decide⟩, .block, rfl⟩
    let d : Cell := ⟨⟨4, List.replicate 8 center ++ [j], by decide⟩, .block, rfl⟩
    c.neighbors.length = 5 ∧ d ∈ c.disk 1 ∧ ∃! j, j ≤ 1 ∧ d ∈ c.ring j := by
  intro c d
  have walk : IsWalk c d 1 [c, d] := ⟨rfl, rfl, by decide +kernel, rfl⟩
  have hd : d ∈ c.disk 1 :=
    ((rings_partition_disk c 1).2.1 d).mpr ⟨1, le_rfl, [c, d], walk⟩
  exact ⟨by decide +kernel, hd, (rings_partition_disk c 1).2.2.2.1 d hd⟩

end Cell

end GeoDispatch
