/-!
# A cache of disks

Disks that were asked for are kept, up to a capacity; when it is exceeded, the disk that
was asked for least recently is dropped.  A cache of capacity zero keeps nothing.
-/

namespace GeoDispatch

/-- The disks that were asked for last, the most recent first, each under its centre and
radius. -/
structure DiskCache (C : Type) where
  capacity : Nat
  entries : List ((C × Nat) × List C)

namespace DiskCache

variable {C : Type} [DecidableEq C]

/-- A cache that holds nothing yet. -/
def empty (C : Type) (capacity : Nat) : DiskCache C := ⟨capacity, []⟩

/-- The number of disks held. -/
def size (cache : DiskCache C) : Nat := cache.entries.length

/-- The centres and radii of the disks held, the most recent first. -/
def keys (cache : DiskCache C) : List (C × Nat) := cache.entries.map Prod.fst

/-- Puts a disk in front, in the place of an older one under the same key, and drops what
exceeds the capacity. -/
def promote (cache : DiskCache C) (key : C × Nat) (disk : List C) : DiskCache C where
  capacity := cache.capacity
  entries :=
    ((key, disk) :: cache.entries.filter fun e => e.1 != key).take cache.capacity

/-- The disk under a key, computed if it is not held, and the cache after the request. -/
def fetch (cache : DiskCache C) (compute : C → Nat → List C) (c : C) (k : Nat) :
    List C × DiskCache C :=
  let disk := (cache.entries.lookup (c, k)).getD (compute c k)
  (disk, cache.promote (c, k) disk)

end DiskCache

end GeoDispatch
