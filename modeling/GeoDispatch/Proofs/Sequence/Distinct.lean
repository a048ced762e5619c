import Mathlib.Data.List.Nodup

/-! # The distinct members of a list

`List.eraseDups` keeps the first occurrence of every member.  It commutes with filters
(`eraseDups_filter`), so that it can be followed along a list one member at a time
(`eraseDups_cons_eq`), and it leaves a sublist without repetitions.
-/

namespace GeoDispatch

variable {α : Type} [BEq α] [LawfulBEq α]

/-- Filters and the removal of repetitions commute. -/
theorem eraseDups_filter (p : α → Bool) (l : List α) :
    (l.filter p).eraseDups = l.eraseDups.filter p := by
  match l with
  | [] => rfl
  | a :: l =>
    have rest := eraseDups_filter p (l.filter fun b => !b == a)
    rw [List.eraseDups_cons]
    cases ha : p a with
    | true =>
      rw [List.filter_cons_of_pos ha, List.filter_cons_of_pos ha, List.eraseDups_cons, ← rest,
        List.filter_filter, List.filter_filter]
      simp only [Bool.and_comm]
    | false =>
      -- the members equal to `a` do not pass the filter anyway
      have pass (b : α) : (p b && !b == a) = p b := by
        by_cases hb : b = a
        · rw [hb, ha, Bool.false_and]
        · simp [hb]
      rw [List.filter_cons_of_neg (by simp [ha]), List.filter_cons_of_neg (by simp [ha]), ← rest,
        List.filter_filter]
      simp only [pass]
termination_by l.length
decreasing_by
  all_goals
    have := List.length_filter_le (fun b => !b == a) l
    rw [List.length_cons]
    omega

theorem eraseDups_cons_eq (a : α) (l : List α) :
    (a :: l).eraseDups = a :: l.eraseDups.filter (· != a) := by
  rw [List.eraseDups_cons, eraseDups_filter]
  rfl

theorem eraseDups_sublist (l : List α) : l.eraseDups.Sublist l := by
  induction l with
  | nil => exact .slnil
  | cons a l ih =>
    rw [eraseDups_cons_eq]
    exact (List.filter_sublist.trans ih).cons_cons a

theorem nodup_eraseDups (l : List α) : l.eraseDups.Nodup := by
  induction l with
  | nil => exact .nil
  | cons a l ih =>
    rw [eraseDups_cons_eq]
    exact List.nodup_cons.mpr ⟨fun h => by simpa using (List.mem_filter.mp h).2, ih.filter _⟩

theorem filter_ne_eq_self {a : α} {l : List α} (h : a ∉ l) : l.filter (· != a) = l := by
  refine List.filter_eq_self.mpr fun b hb => bne_iff_ne.mpr ?_
  rintro rfl
  exact h hb

theorem filter_ne_middle {a : α} {front back : List α} (distinct : (front ++ a :: back).Nodup) :
    (front ++ a :: back).filter (· != a) = front ++ back := by
  obtain ⟨absent, -⟩ := List.nodup_cons.mp (List.nodup_middle.mp distinct)
  have before : a ∉ front := fun h => absent (List.mem_append_left back h)
  have after : a ∉ back := fun h => absent (List.mem_append_right front h)
  rw [List.filter_append, List.filter_cons_of_neg (by simp), filter_ne_eq_self before,
    filter_ne_eq_self after]

/-- Among `n + 1` distinct members there are `n` other than a given one. -/
theorem take_filter_take {l : List α} (distinct : l.Nodup) (a : α) (n : Nat) :
    ((l.take (n + 1)).filter (· != a)).take n = (l.filter (· != a)).take n := by
  induction l generalizing n with
  | nil => rw [List.take_nil]
  | cons b l ih =>
    obtain ⟨hb, distinct⟩ := List.nodup_cons.mp distinct
    rw [List.take_succ_cons]
    by_cases same : b = a
    · subst same
      rw [List.filter_cons_of_neg (by simp), List.filter_cons_of_neg (by simp),
        filter_ne_eq_self hb, filter_ne_eq_self fun h => hb (List.mem_of_mem_take h),
        List.take_take, Nat.min_self]
    · rw [List.filter_cons_of_pos (by simpa using same),
        List.filter_cons_of_pos (by simpa using same)]
      cases n with
      | zero => rfl
      | succ n => rw [List.take_succ_cons, List.take_succ_cons, ih distinct]

end GeoDispatch
