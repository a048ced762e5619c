import GeoDispatch.Json.Decode
import Mathlib.Data.Option.Basic
import Mathlib.Order.Basic

/-! # What holds of all parts of a value

A value is definite when all its items and members are, and no deeper than a bound when all its
items and members are.
-/

namespace GeoDispatch.Json

namespace Value

theorem isDefinite_array_iff {vs : List Value} :
    (array vs).isDefinite ↔ ∀ v ∈ vs, v.isDefinite := by
  rw [isDefinite]
  induction vs with
  | nil => exact ⟨fun _ _ hv => absurd hv List.not_mem_nil, fun _ => rfl⟩
  | cons v vs ih => rw [areDefinite, Bool.and_eq_true_iff, ih, List.forall_mem_cons]

theorem isDefinite_object_iff {ms : List (Text × Value)} :
    (object ms).isDefinite ↔ ∀ m ∈ ms, m.1.isSome ∧ m.2.isDefinite := by
  rw [isDefinite]
  induction ms with
  | nil => exact ⟨fun _ _ hm => absurd hm List.not_mem_nil, fun _ => rfl⟩
  | cons m ms ih =>
    rw [areDefiniteMembers, Bool.and_eq_true_iff, Bool.and_eq_true_iff, ih, List.forall_mem_cons]

theorem isDefinite_ofMembers_iff {ms : List (String × Value)} :
    (ofMembers ms).isDefinite ↔ ∀ m ∈ ms, m.2.isDefinite := by
  rw [ofMembers, isDefinite_object_iff, List.forall_mem_map]
  exact forall₂_congr fun _ _ => and_iff_right rfl

theorem depthOfItems_le_iff {vs : List Value} {n : Nat} :
    depthOfItems vs ≤ n ↔ ∀ v ∈ vs, v.depth ≤ n := by
  induction vs with
  | nil => exact ⟨fun _ _ hv => absurd hv List.not_mem_nil, fun _ => Nat.zero_le n⟩
  | cons v vs ih => rw [depthOfItems, Nat.max_le, ih, List.forall_mem_cons]

theorem depthOfMembers_le_iff {ms : List (Text × Value)} {n : Nat} :
    depthOfMembers ms ≤ n ↔ ∀ m ∈ ms, m.2.depth ≤ n := by
  induction ms with
  | nil => exact ⟨fun _ _ hm => absurd hm List.not_mem_nil, fun _ => Nat.zero_le n⟩
  | cons m ms ih => rw [depthOfMembers, Nat.max_le, ih, List.forall_mem_cons]

theorem depth_array_le_iff {vs : List Value} {n : Nat} :
    (array vs).depth ≤ n + 1 ↔ ∀ v ∈ vs, v.depth ≤ n := by
  rw [depth, Nat.add_comm, Nat.add_le_add_iff_right, depthOfItems_le_iff]

theorem depth_object_le_iff {ms : List (Text × Value)} {n : Nat} :
    (object ms).depth ≤ n + 1 ↔ ∀ m ∈ ms, m.2.depth ≤ n := by
  rw [depth, Nat.add_comm, Nat.add_le_add_iff_right, depthOfMembers_le_iff]

theorem depth_ofFloat (x : Float) : (ofFloat x).depth = 0 := by
  unfold ofFloat
  split <;> rfl

end Value

theorem parseWhole?_eq_some_iff {s : String} {v : Value} :
    parseWhole? s = some v ↔ parse? s = some v ∧ v.isDefinite ∧ v.depth ≤ Value.maxDepth := by
  rw [parseWhole?, Option.filter_eq_some_iff, Bool.and_eq_true_iff, decide_eq_true_eq]

/-- A value that is read as a double is definite. -/
theorem Decoder.isDefinite_of_float {v : Value} {x : Float} (h : Decoder.float v = some x) :
    v.isDefinite := by
  cases v with
  | number s => exact Option.isSome_iff_exists.mpr ⟨x, h⟩
  | null | bool | text | array | object => cases h

end GeoDispatch.Json
