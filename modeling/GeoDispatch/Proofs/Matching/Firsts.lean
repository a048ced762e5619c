import GeoDispatch.Proofs.Sequence.Distinct
import Mathlib.Data.List.Perm.Lattice

/-! # The first entries of a list, key by key

A pass that remembers the keys it has seen keeps one entry of each key and skips the
others (`firstsBy`, `repeatsBy`).  When an asymmetric relation holds from every entry to
the later ones, the entries that are kept need no mention of the pass: an entry is kept
when it stands in the relation to every other entry of its key (`mem_firstsBy`).
-/

namespace GeoDispatch

variable {κ : Type} (key : κ → String)

/-- The entries whose key is not among some and does not occur before them. -/
def firstsBy : List String → List κ → List κ
  | _, [] => []
  | seen, k :: ks =>
    if key k ∈ seen then firstsBy seen ks else k :: firstsBy (key k :: seen) ks

/-- The entries that `firstsBy` leaves out. -/
def repeatsBy : List String → List κ → List κ
  | _, [] => []
  | seen, k :: ks =>
    if key k ∈ seen then k :: repeatsBy seen ks else repeatsBy (key k :: seen) ks

variable {key}

theorem firstsBy_map {γ : Type} (g : γ → κ) (seen : List String) (gs : List γ) :
    firstsBy key seen (gs.map g) = (firstsBy (fun c => key (g c)) seen gs).map g := by
  induction gs generalizing seen with
  | nil => rfl
  | cons c gs ih =>
    simp only [List.map_cons, firstsBy]
    split <;> simp [ih]

theorem repeatsBy_map {γ : Type} (g : γ → κ) (seen : List String) (gs : List γ) :
    repeatsBy key seen (gs.map g) = (repeatsBy (fun c => key (g c)) seen gs).map g := by
  induction gs generalizing seen with
  | nil => rfl
  | cons c gs ih =>
    simp only [List.map_cons, repeatsBy]
    split <;> simp [ih]

theorem firstsBy_sublist (seen : List String) (ks : List κ) :
    (firstsBy key seen ks).Sublist ks := by
  induction ks generalizing seen with
  | nil => exact .slnil
  | cons k ks ih =>
    rw [firstsBy]
    split
    · exact (ih seen).cons k
    · exact (ih _).cons_cons k

theorem firstsBy_append_repeatsBy_perm (seen : List String) (ks : List κ) :
    (firstsBy key seen ks ++ repeatsBy key seen ks).Perm ks := by
  induction ks generalizing seen with
  | nil => exact .nil
  | cons k ks ih =>
    rw [firstsBy, repeatsBy]
    split
    · exact List.perm_middle.trans ((ih seen).cons k)
    · exact (ih _).cons k

theorem mem_map_firstsBy {seen : List String} {ks : List κ} {x : String} :
    x ∈ (firstsBy key seen ks).map key ↔ x ∈ ks.map key ∧ x ∉ seen := by
  induction ks generalizing seen with
  | nil => simp [firstsBy]
  | cons k ks ih =>
    rw [firstsBy]
    split <;> rename_i hk
    · rw [ih, List.map_cons, List.mem_cons]
      constructor
      · rintro ⟨hx, hs⟩
        exact ⟨.inr hx, hs⟩
      · rintro ⟨rfl | hx, hs⟩
        · exact absurd hk hs
        · exact ⟨hx, hs⟩
    · rw [List.map_cons, List.mem_cons, ih, List.map_cons, List.mem_cons, List.mem_cons]
      by_cases hx : x = key k
      · simp [hx, hk]
      · simp [hx]

theorem nodup_map_firstsBy (seen : List String) (ks : List κ) :
    ((firstsBy key seen ks).map key).Nodup := by
  induction ks generalizing seen with
  | nil => exact .nil
  | cons k ks ih =>
    rw [firstsBy]
    split
    · exact ih seen
    · rw [List.map_cons, List.nodup_cons]
      refine ⟨fun hk => ?_, ih _⟩
      exact (mem_map_firstsBy.mp hk).2 (List.mem_cons_self ..)

/-- Every new key is kept exactly once. -/
theorem existsUnique_mem_firstsBy {seen : List String} {ks : List κ} {x : String}
    (hx : x ∈ ks.map key) (hs : x ∉ seen) : ∃! k, k ∈ firstsBy key seen ks ∧ key k = x := by
  obtain ⟨k, hk, rfl⟩ := List.mem_map.mp (mem_map_firstsBy.mpr ⟨hx, hs⟩)
  refine ⟨k, ⟨hk, rfl⟩, ?_⟩
  rintro k' ⟨hk', same⟩
  exact List.inj_on_of_nodup_map (nodup_map_firstsBy seen ks) hk' hk same

/-! ## What is kept, without the pass -/

variable {R : κ → κ → Prop}

theorem mem_firstsBy (asymm : ∀ a b, R a b → ¬ R b a) {seen : List String} {ks : List κ}
    (sorted : ks.Pairwise R) {k : κ} :
    k ∈ firstsBy key seen ks ↔
      k ∈ ks ∧ key k ∉ seen ∧ ∀ k' ∈ ks, key k' = key k → k' = k ∨ R k k' := by
  induction ks generalizing seen with
  | nil => simp [firstsBy]
  | cons k₀ ks ih =>
    obtain ⟨first, sorted⟩ := List.pairwise_cons.mp sorted
    rw [firstsBy]
    split <;> rename_i hk₀
    · rw [ih sorted, List.mem_cons, List.forall_mem_cons]
      constructor
      · rintro ⟨hk, hs, h⟩
        exact ⟨.inr hk, hs, fun same => absurd (same ▸ hk₀) hs, h⟩
      · rintro ⟨rfl | hk, hs, -, h⟩
        · exact absurd hk₀ hs
        · exact ⟨hk, hs, h⟩
    · rw [List.mem_cons, ih sorted, List.mem_cons, List.forall_mem_cons, List.mem_cons]
      constructor
      · rintro (rfl | ⟨hk, hs, h⟩)
        · exact ⟨.inl rfl, hk₀, fun _ => .inl rfl, fun k' hk' _ => .inr (first k' hk')⟩
        · exact ⟨.inr hk, fun hm => hs (.inr hm), fun same => absurd (.inl same.symm) hs, h⟩
      · rintro ⟨rfl | hk, hs, h₀, h⟩
        · exact .inl rfl
        -- a later entry with the key of the head would have to precede it
        · by_cases same : key k₀ = key k
          · exact .inl ((h₀ same).resolve_right (asymm _ _ (first k hk))).symm
          · exact .inr ⟨hk, fun hm => hm.elim (fun e => same e.symm) hs, h⟩

theorem mem_repeatsBy {seen : List String} {ks : List κ} (distinct : ks.Nodup) {k : κ} :
    k ∈ repeatsBy key seen ks ↔ k ∈ ks ∧ k ∉ firstsBy key seen ks := by
  have perm := @firstsBy_append_repeatsBy_perm κ key seen ks
  have apart := List.disjoint_of_nodup_append (perm.nodup_iff.mpr distinct)
  rw [← perm.mem_iff, List.mem_append]
  constructor
  · intro hk
    exact ⟨.inr hk, fun hf => apart hf hk⟩
  · rintro ⟨hf | hk, hn⟩
    · exact absurd hf hn
    · exact hk

/-! ## Prefixes and repetitions -/

/-- More entries at the end do not change what is kept of those before. -/
theorem firstsBy_isPrefix {seen : List String} {ks ks' : List κ} (h : ks <+: ks') :
    firstsBy key seen ks <+: firstsBy key seen ks' := by
  obtain ⟨more, rfl⟩ := h
  induction ks generalizing seen with
  | nil => exact List.nil_prefix
  | cons k ks ih =>
    rw [List.cons_append, firstsBy, firstsBy]
    split
    · exact ih
    · exact List.cons_prefix_cons.mpr ⟨rfl, ih⟩

theorem firstsBy_filter {seen : List String} {ks : List κ} {p : κ → Bool}
    (known : ∀ k ∈ ks, p k = false → key k ∈ seen) :
    firstsBy key seen (ks.filter p) = firstsBy key seen ks := by
  induction ks generalizing seen with
  | nil => rfl
  | cons k ks ih =>
    obtain ⟨hk, known⟩ := List.forall_mem_cons.mp known
    cases pass : p k with
    | true =>
      rw [List.filter_cons_of_pos pass, firstsBy, firstsBy, ih known]
      split
      · rfl
      · rw [ih fun k' hk' out => List.mem_cons_of_mem _ (known k' hk' out)]
    | false =>
      rw [List.filter_cons_of_neg (by simp [pass]), ih known, firstsBy, if_pos (hk pass)]

/-- An entry that came before is skipped, so that repetitions play no part. -/
theorem firstsBy_eraseDups [BEq κ] [LawfulBEq κ] (seen : List String) (ks : List κ) :
    firstsBy key seen ks.eraseDups = firstsBy key seen ks := by
  induction ks generalizing seen with
  | nil => rfl
  | cons k ks ih =>
    have skip {seen : List String} (hk : key k ∈ seen) :
        firstsBy key seen (ks.eraseDups.filter (· != k)) = firstsBy key seen ks := by
      rw [firstsBy_filter fun k' _ same => ?_, ih]
      rw [bne_eq_false_iff_eq.mp same]
      exact hk
    rw [eraseDups_cons_eq, firstsBy, firstsBy]
    split
    · rename_i hk
      exact skip hk
    · rw [skip List.mem_cons_self]

end GeoDispatch
