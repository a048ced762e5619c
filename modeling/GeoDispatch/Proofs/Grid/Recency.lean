import GeoDispatch.Proofs.Grid.Cache
import GeoDispatch.Proofs.Sequence.Distinct
import Mathlib.Data.Finset.Card

/-! # What a cache holds after a history of requests

A cache with the law of recency (`RecencyCache`) moves what it holds to the front when it is asked
for it, puts what it does not hold there, and drops what was not asked for the longest when there is
no room.  Nothing else is asked of it.  After any requests it holds the disks of the keys that were
asked for last, as many as it has room for, the most recent first (`RecencyCache.Remembers`).  This
is one invariant with one step (`RecencyCache.Remembers.fetch`).

A tiling is asked for disks and for covers of circles (`GridCall`).  Through any such cache it
answers as without, and the contents of the cache can be read off the history
(`RecencyCache.Remembers.run`).  The cache of a grid has the law of recency (`DiskCache.recency`),
so that this holds of grids (`Grid.cache_remembers_recent_disks`).
-/

namespace GeoDispatch

variable {C : Type} [DecidableEq C]

section

variable {κ : Type} [BEq κ]

/-- The members of a history, each once, the most recent first. -/
def mostRecent (history : List κ) : List κ := history.reverse.eraseDups

variable [LawfulBEq κ]

theorem mostRecent_concat (history : List κ) (key : κ) :
    mostRecent (history ++ [key]) = key :: (mostRecent history).filter (· != key) := by
  rw [mostRecent, List.reverse_concat, eraseDups_cons_eq, mostRecent]

theorem nodup_mostRecent (history : List κ) : (mostRecent history).Nodup := nodup_eraseDups _

theorem length_mostRecent [DecidableEq κ] (history : List κ) :
    (mostRecent history).length = history.toFinset.card := by
  have same : (mostRecent history).toFinset = history.toFinset := by
    ext key
    simp [mostRecent]
  rw [← same, List.toFinset_card_of_nodup (nodup_mostRecent history)]

end

/-! ## Caches with the law of recency -/

/-- Caches of disks in states `K`: how many disks a cache has room for, those it holds, the most
recent first, each under its centre and radius, and what it answers to a request for a disk, with
the cache after the request. -/
structure RecencyCache (K C : Type) where
  capacity : K → Nat
  entries : K → List ((C × Nat) × List C)
  fetch : K → (C → Nat → List C) → C → Nat → List C × K
  capacity_fetch : ∀ cache compute c k, capacity (fetch cache compute c k).2 = capacity cache
  /-- A disk that is held is answered and comes to the front. -/
  hit : ∀ cache compute c k front disk back,
    entries cache = front ++ ((c, k), disk) :: back → ((entries cache).map Prod.fst).Nodup →
      (entries cache).length ≤ capacity cache →
        (fetch cache compute c k).1 = disk ∧
          entries (fetch cache compute c k).2 = ((c, k), disk) :: (front ++ back)
  /-- A disk that is not held is computed and put in front, and the last one goes if there is no
  room for it. -/
  miss : ∀ cache compute c k, (c, k) ∉ (entries cache).map Prod.fst →
    (fetch cache compute c k).1 = compute c k ∧
      entries (fetch cache compute c k).2 =
        (((c, k), compute c k) :: entries cache).take (capacity cache)

namespace RecencyCache

/-- The entry of a key: the disk that is computed for it. -/
def entry (compute : C → Nat → List C) (key : C × Nat) : (C × Nat) × List C :=
  (key, compute key.1 key.2)

variable {K : Type} (R : RecencyCache K C)

/-- A cache holds the disks of the most recent keys of a history, as many as it has room for. -/
def Remembers (compute : C → Nat → List C) (history : List (C × Nat)) (cache : K) : Prop :=
  R.entries cache = ((mostRecent history).take (R.capacity cache)).map (entry compute)

namespace Remembers

section

variable {R} {compute : C → Nat → List C} {history : List (C × Nat)} {cache : K}

theorem of_entries_eq_nil (nothing : R.entries cache = []) : R.Remembers compute [] cache := by
  rw [Remembers, nothing, mostRecent, List.reverse_nil, List.eraseDups_nil, List.take_nil]
  rfl

variable (h : R.Remembers compute history cache)
include h

theorem keys_eq :
    (R.entries cache).map Prod.fst = (mostRecent history).take (R.capacity cache) := by
  rw [h, List.map_map]
  exact List.map_id _

theorem length_eq : (R.entries cache).length = min (R.capacity cache) history.toFinset.card := by
  rw [h, List.length_map, List.length_take, length_mostRecent]

/-- The disk of a key is answered, and comes to stand before those of the other keys. -/
theorem entries_fetch (c : C) (k : Nat) :
    (R.fetch cache compute c k).1 = compute c k ∧
      R.entries (R.fetch cache compute c k).2 =
        ((((c, k) :: ((mostRecent history).take (R.capacity cache)).filter (· != (c, k))).take
          (R.capacity cache)).map (entry compute)) := by
  have distinct : ((mostRecent history).take (R.capacity cache)).Nodup :=
    (nodup_mostRecent history).sublist (List.take_sublist _ _)
  have fits : (R.entries cache).length ≤ R.capacity cache := h.length_eq ▸ min_le_left _ _
  by_cases held : (c, k) ∈ (R.entries cache).map Prod.fst
  · have recent := h.keys_eq ▸ held
    obtain ⟨front, back, split⟩ := List.append_of_mem recent
    have entries : R.entries cache =
        front.map (entry compute) ++ ((c, k), compute c k) :: back.map (entry compute) := by
      rw [h, split, List.map_append, List.map_cons, entry]
    obtain ⟨answer, after⟩ := R.hit cache compute c k _ _ _ entries (h.keys_eq ▸ distinct) fits
    -- there was room for the key before, so that nothing is dropped
    have room : ((c, k) :: (front ++ back)).length ≤ R.capacity cache := by
      rw [entries] at fits
      simp only [List.length_append, List.length_map, List.length_cons] at fits ⊢
      omega
    refine ⟨answer, ?_⟩
    rw [after, split, filter_ne_middle (split ▸ distinct), List.take_of_length_le room,
      List.map_cons, List.map_append, entry]
  · obtain ⟨answer, after⟩ := R.miss cache compute c k held
    refine ⟨answer, ?_⟩
    rw [after, filter_ne_eq_self (h.keys_eq ▸ held), List.map_take, List.map_cons, ← h, entry]

/-- **The step of the invariant.**  A request is answered with the disk of its key, and the key
becomes the most recent one. -/
theorem fetch (c : C) (k : Nat) :
    (R.fetch cache compute c k).1 = compute c k ∧
      R.Remembers compute (history ++ [(c, k)]) (R.fetch cache compute c k).2 := by
  obtain ⟨answer, after⟩ := h.entries_fetch c k
  refine ⟨answer, ?_⟩
  rw [Remembers, after, R.capacity_fetch, mostRecent_concat]
  cases R.capacity cache with
  | zero => rfl
  | succ n =>
    -- even when the key was held, enough others are left to fill the room behind it
    rw [List.take_succ_cons, List.take_succ_cons, take_filter_take (nodup_mostRecent history)]

end

end Remembers

end RecencyCache

/-! ## Requests -/

/-- A request to a grid: for the disk around a cell, or for the cover of a circle. -/
inductive GridCall (C : Type) where
  | disk (c : C) (k : Nat)
  | cover (center : Point Float) (km : Float)

namespace GridCall

/-- The answer without a cache. -/
def answer (t : Tiling C) (r : Resolution) : GridCall C → Except GeoError (List C)
  | disk c k => .ok (t.disk c k)
  | cover center km => t.cover r center km

/-- The key that a request asks the cache for; a cover around a point out of range asks for
none. -/
def key? (t : Tiling C) (r : Resolution) : GridCall C → Option (C × Nat)
  | disk c k => some (c, k)
  | cover center km =>
    match t.cellOf center with
    | .ok c => some (c, ringsForRadius km r)
    | .error _ => none

omit [DecidableEq C] in
theorem answer_of_key? {t : Tiling C} {r : Resolution} {call : GridCall C} {c : C} {k : Nat}
    (key : call.key? t r = some (c, k)) : call.answer t r = .ok (t.disk c k) := by
  cases call with
  | disk c' k' =>
    cases key
    rfl
  | cover center km =>
    unfold key? at key
    dsimp only at key
    unfold answer Tiling.cover
    dsimp only
    cases place : t.cellOf center with
    | ok c' =>
      rw [place] at key
      cases key
      rfl
    | error e =>
      rw [place] at key
      cases key

end GridCall

namespace RecencyCache

variable {K : Type} (R : RecencyCache K C) (t : Tiling C) (r : Resolution)

/-- The answer of a tiling to a request through a cache, and the cache after it. -/
def serve (cache : K) (call : GridCall C) : Except GeoError (List C) × K :=
  match call.key? t r with
  | some (c, k) => (.ok (R.fetch cache t.disk c k).1, (R.fetch cache t.disk c k).2)
  | none => (call.answer t r, cache)

/-- The answers to requests through a cache, and the cache after them. -/
def run (cache : K) : List (GridCall C) → List (Except GeoError (List C)) × K
  | [] => ([], cache)
  | call :: calls =>
    let first := R.serve t r cache call
    let rest := run first.2 calls
    (first.1 :: rest.1, rest.2)

namespace Remembers

variable {R} {t} {history : List (C × Nat)} {cache : K}
  (h : R.Remembers t.disk history cache)
include h

theorem serve (call : GridCall C) :
    (R.serve t r cache call).1 = call.answer t r ∧
      R.Remembers t.disk (history ++ (call.key? t r).toList) (R.serve t r cache call).2 := by
  cases key : call.key? t r with
  | none =>
    simp only [RecencyCache.serve, key, Option.toList_none, List.append_nil]
    exact ⟨trivial, h⟩
  | some ck =>
    obtain ⟨answer, next⟩ := h.fetch ck.1 ck.2
    simp only [RecencyCache.serve, key, Option.toList_some, GridCall.answer_of_key? key, answer]
    exact ⟨trivial, next⟩

/-- **Requests through a cache with the law of recency** are answered as without it, and leave the
most recent disks in it. -/
theorem run (calls : List (GridCall C)) :
    (R.run t r cache calls).1 = calls.map (GridCall.answer t r) ∧
      R.Remembers t.disk (history ++ calls.filterMap (GridCall.key? t r))
        (R.run t r cache calls).2 := by
  induction calls generalizing cache history with
  | nil =>
    rw [List.filterMap_nil, List.append_nil]
    exact ⟨rfl, h⟩
  | cons call calls ih =>
    obtain ⟨answer, served⟩ := h.serve r call
    obtain ⟨answers, final⟩ := ih served
    have keys : (call.key? t r).toList ++ calls.filterMap (GridCall.key? t r) =
        (call :: calls).filterMap (GridCall.key? t r) := by
      cases key : call.key? t r <;> simp [key]
    rw [List.append_assoc, keys] at final
    exact ⟨congrArg₂ List.cons answer answers, final⟩

end Remembers

omit [DecidableEq C] in
theorem capacity_serve (cache : K) (call : GridCall C) :
    R.capacity (R.serve t r cache call).2 = R.capacity cache := by
  cases key : call.key? t r with
  | none => simp only [serve, key]
  | some ck => simp only [serve, key, R.capacity_fetch]

omit [DecidableEq C] in
theorem capacity_run (cache : K) (calls : List (GridCall C)) :
    R.capacity (R.run t r cache calls).2 = R.capacity cache := by
  induction calls generalizing cache with
  | nil => rfl
  | cons call calls ih => exact (ih _).trans (R.capacity_serve t r cache call)

end RecencyCache

/-! ## The cache of a grid -/

namespace DiskCache

omit [DecidableEq C] in
theorem ne_of_absent {key : C × Nat} {es : List ((C × Nat) × List C)}
    (absent : key ∉ es.map Prod.fst) {e : (C × Nat) × List C} (he : e ∈ es) : key ≠ e.1 :=
  (ne_of_mem_of_not_mem (List.mem_map_of_mem he) absent).symm

theorem filter_of_absent {key : C × Nat} {es : List ((C × Nat) × List C)}
    (absent : key ∉ es.map Prod.fst) : (es.filter fun e => e.1 != key) = es :=
  List.filter_eq_self.mpr fun _ he => bne_iff_ne.mpr (ne_of_absent absent he).symm

variable {cache : DiskCache C} {c : C} {k : Nat}

theorem fetch_of_held (compute : C → Nat → List C) {front back : List ((C × Nat) × List C)}
    {disk : List C} (split : cache.entries = front ++ ((c, k), disk) :: back)
    (distinct : (cache.entries.map Prod.fst).Nodup) (fits : cache.entries.length ≤ cache.capacity) :
    (cache.fetch compute c k).1 = disk ∧
      (cache.fetch compute c k).2.entries = ((c, k), disk) :: (front ++ back) := by
  rw [split, List.map_append, List.map_cons] at distinct
  obtain ⟨absent, -⟩ := List.nodup_cons.mp (List.nodup_middle.mp distinct)
  rw [List.mem_append, not_or] at absent
  have held : cache.entries.lookup (c, k) = some disk :=
    List.lookup_eq_some_iff.mpr
      ⟨front, back, split, fun _ he => bne_iff_ne.mpr (ne_of_absent absent.1 he)⟩
  have others : (cache.entries.filter fun e => e.1 != (c, k)) = front ++ back := by
    rw [split, List.filter_append, List.filter_cons_of_neg (by simp),
      filter_of_absent absent.1, filter_of_absent absent.2]
  have room : (((c, k), disk) :: (front ++ back)).length ≤ cache.capacity := by
    rw [split] at fits
    simp only [List.length_append, List.length_cons] at fits ⊢
    omega
  rw [fetch, promote, held, others, Option.getD_some, List.take_of_length_le room]
  exact ⟨rfl, rfl⟩

theorem fetch_of_absent (compute : C → Nat → List C)
    (absent : (c, k) ∉ cache.entries.map Prod.fst) :
    (cache.fetch compute c k).1 = compute c k ∧
      (cache.fetch compute c k).2.entries =
        (((c, k), compute c k) :: cache.entries).take cache.capacity := by
  have missing : cache.entries.lookup (c, k) = none :=
    List.lookup_eq_none_iff.mpr fun e he => bne_iff_ne.mpr (ne_of_absent absent he)
  rw [fetch, promote, missing, filter_of_absent absent]
  exact ⟨rfl, rfl⟩

/-- The cache of a grid has the law of recency. -/
def recency (C : Type) [DecidableEq C] : RecencyCache (DiskCache C) C where
  capacity := capacity
  entries := entries
  fetch := fetch
  capacity_fetch _ _ _ _ := rfl
  hit _ compute _ _ _ _ _ := fetch_of_held compute
  miss _ compute _ _ := fetch_of_absent compute

end DiskCache

namespace Grid

/-- The answer to a request, and the grid after it. -/
def serve (g : Grid C) : GridCall C → Except GeoError (List C) × Grid C
  | .disk c k => (.ok (g.disk c k).1, (g.disk c k).2)
  | .cover center km =>
    match g.cover center km with
    | .ok (cells, g') => (.ok cells, g')
    | .error e => (.error e, g)

/-- The answers to requests, and the grid after them. -/
def run (g : Grid C) : List (GridCall C) → List (Except GeoError (List C)) × Grid C
  | [] => ([], g)
  | call :: calls =>
    let first := g.serve call
    let rest := first.2.run calls
    (first.1 :: rest.1, rest.2)

/-- A grid serves a request through its cache, and nothing else of it changes. -/
theorem serve_eq (g : Grid C) (call : GridCall C) :
    g.serve call =
      let served := (DiskCache.recency C).serve g.tiling g.resolution g.cache call
      (served.1, { g with cache := served.2 }) := by
  cases call with
  | disk c k => rfl
  | cover center km =>
    unfold serve cover RecencyCache.serve GridCall.key? GridCall.answer Tiling.cover cellOf
    dsimp only
    cases g.tiling.cellOf center <;> rfl

theorem run_eq (g : Grid C) (calls : List (GridCall C)) :
    g.run calls =
      let served := (DiskCache.recency C).run g.tiling g.resolution g.cache calls
      (served.1, { g with cache := served.2 }) := by
  induction calls generalizing g with
  | nil => rfl
  | cons call calls ih =>
    rw [run, serve_eq, ih]
    rfl

/-- **A grid answers as without its cache, and the cache holds the most recent disks.**  After
any requests to a new grid, every answer was that of the tiling; the cache holds the disks of
the keys asked for last, up to its capacity, the most recent first, each under its key; so it
has as many of them as the capacity and the number of different keys allow; and a cover around
a point out of range is refused and leaves the grid alone.  A capacity of zero keeps nothing. -/
theorem cache_remembers_recent_disks (s : GridSettings) (t : Tiling C)
    (calls : List (GridCall C)) :
    let keys := calls.filterMap (GridCall.key? t s.resolution)
    let g := ((ofSettings s t).run calls).2
    ((ofSettings s t).run calls).1 = calls.map (GridCall.answer t s.resolution) ∧
    g.cache.entries = ((mostRecent keys).take s.cacheCapacity).map
      (fun key => (key, t.disk key.1 key.2)) ∧
    g.cache.size = min s.cacheCapacity keys.toFinset.card ∧
    ∀ center km e, t.cover s.resolution center km = .error e →
      g.serve (.cover center km) = (.error e, g) := by
  intro keys g
  have start : (DiskCache.recency C).Remembers t.disk [] (ofSettings s t).cache :=
    .of_entries_eq_nil rfl
  obtain ⟨answers, remembers⟩ := start.run s.resolution calls
  have capacity := (DiskCache.recency C).capacity_run t s.resolution (ofSettings s t).cache calls
  have served := (ofSettings s t).run_eq calls
  have cache :
      g.cache = ((DiskCache.recency C).run t s.resolution (ofSettings s t).cache calls).2 :=
    congrArg (fun served => served.2.cache) served
  rw [← cache, List.nil_append] at remembers
  rw [← cache] at capacity
  refine ⟨(congrArg Prod.fst served).trans answers, remembers.trans ?_,
    remembers.length_eq.trans ?_, fun center km e refused => ?_⟩
  · rw [capacity]
    rfl
  · rw [capacity]
    rfl
  · have tiling : g.tiling = t := congrArg (fun served => served.2.tiling) served
    have out : g.cover center km = .error e := by
      rw [cover, cellOf, tiling]
      cases place : t.cellOf center with
      | ok c =>
        rw [Tiling.cover, place] at refused
        cases refused
      | error e' =>
        rw [Tiling.cover, place] at refused
        cases refused
        rfl
    unfold serve
    dsimp only
    rw [out]

end Grid

end GeoDispatch
