import Mathlib.Data.List.Basic

/-! # Lists mapped by a partial function

`List.mapM` into options gives a value exactly when the function gives one for every member, and
then it gives the list of these values (`mapM_eq_some_iff`).
-/

namespace GeoDispatch

variable {α β : Type} {f : α → Option β} {as : List α}

theorem mapM_eq_some_iff {bs : List β} : as.mapM f = some bs ↔ as.map f = bs.map some := by
  induction as generalizing bs with
  | nil =>
    rw [List.mapM_nil, List.map_nil, eq_comm (a := []), List.map_eq_nil_iff]
    exact Option.some_inj.trans eq_comm
  | cons a as ih =>
    rw [List.mapM_cons, List.map_cons]
    constructor
    · intro h
      obtain ⟨b, hb, h⟩ := Option.bind_eq_some_iff.mp h
      obtain ⟨bs', hbs, h⟩ := Option.bind_eq_some_iff.mp h
      cases h
      rw [hb, ih.mp hbs, List.map_cons]
    · intro h
      obtain ⟨b, bs', rfl, hb, hbs⟩ := List.map_eq_cons_iff.mp h.symm
      rw [← hb, ih.mpr hbs.symm]
      rfl

/-- A partial function that has the values of a total one on a list maps the list like it. -/
theorem mapM_eq_some_map {g : α → β} (h : ∀ a ∈ as, f a = some (g a)) :
    as.mapM f = some (as.map g) := by
  rw [mapM_eq_some_iff, List.map_map]
  exact List.map_congr_left h

theorem exists_of_mapM_eq_some {bs : List β} (h : as.mapM f = some bs) {a : α} (ha : a ∈ as) :
    ∃ b ∈ bs, f a = some b := by
  have member : f a ∈ bs.map some := mapM_eq_some_iff.mp h ▸ List.mem_map_of_mem ha
  obtain ⟨b, hb, same⟩ := List.mem_map.mp member
  exact ⟨b, hb, same.symm⟩

theorem exists_of_mem_of_mapM_eq_some {bs : List β} (h : as.mapM f = some bs) {b : β}
    (hb : b ∈ bs) : ∃ a ∈ as, f a = some b := by
  have member : some b ∈ as.map f := (mapM_eq_some_iff.mp h).symm ▸ List.mem_map_of_mem hb
  exact List.mem_map.mp member

/-- A partial function that follows another one on a list maps the list like it. -/
theorem mapM_eq_some_of_follows {γ : Type} {bs : List β} {g : α → Option γ} {k : β → γ}
    (h : as.mapM f = some bs) (follows : ∀ a b, f a = some b → g a = some (k b)) :
    as.mapM g = some (bs.map k) := by
  induction as generalizing bs with
  | nil =>
    cases h
    rfl
  | cons a as ih =>
    have values := mapM_eq_some_iff.mp h
    rw [List.map_cons] at values
    obtain ⟨b, bs', rfl, hb, hbs⟩ := List.map_eq_cons_iff.mp values.symm
    rw [List.mapM_cons, follows a b hb.symm, ih (mapM_eq_some_iff.mpr hbs.symm)]
    rfl

/-- When one member of a list is replaced, only its value changes. -/
theorem mapM_eq_some_modify {before after : List α} {a a' : α} {bs : List β} {g : β → β}
    (h : (before ++ a :: after).mapM f = some bs)
    (replaced : ∀ b, f a = some b → f a' = some (g b)) :
    (before ++ a' :: after).mapM f = some (bs.modify before.length g) := by
  have values := mapM_eq_some_iff.mp h
  induction before generalizing bs with
  | nil =>
    obtain ⟨b, bs', rfl, hb, hbs⟩ := List.map_eq_cons_iff.mp values.symm
    rw [mapM_eq_some_iff]
    show f a' :: after.map f = some (g b) :: bs'.map some
    rw [replaced b hb.symm, hbs]
  | cons a₀ before ih =>
    obtain ⟨b, bs', rfl, hb, hbs⟩ := List.map_eq_cons_iff.mp values.symm
    have later := mapM_eq_some_iff.mp (ih (mapM_eq_some_iff.mpr hbs.symm) hbs.symm)
    rw [mapM_eq_some_iff]
    show f a₀ :: (before ++ a' :: after).map f = some b :: (bs'.modify before.length g).map some
    rw [later, hb]

/-- What a partial function makes of a list is undone by a function that undoes it. -/
theorem map_eq_of_mapM_eq_some {bs : List β} {k : β → α} (h : as.mapM f = some bs)
    (undone : ∀ a b, f a = some b → k b = a) : bs.map k = as := by
  have follows := mapM_eq_some_of_follows h fun a b hb => congrArg some (undone a b hb).symm
  rw [mapM_eq_some_map fun a _ => rfl, List.map_id'] at follows
  exact (Option.some.inj follows).symm

end GeoDispatch
