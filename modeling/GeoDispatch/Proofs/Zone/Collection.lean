import GeoDispatch.Zone.Fence
import Mathlib.Data.List.Basic
import Mathlib.Logic.Function.Basic

/-! # A collection is a queue for each identifier

Additions and removals treat the fences of one identifier as a queue: an addition goes to its end,
and a removal takes its front (`FenceCall.carry`).  A removal finds the oldest fence of its
identifier and closes the gap (`FenceCollection.remove_cases`), so the queues of all other
identifiers and the order between the fences that stay are as before.

A history leaves the additions less what was taken out.  What was taken of an identifier is what
was added of it first, and the rest stands in the order in which it was added: this is the
invariant of a history (`FenceCollection.IsLeft`), which one call preserves.

The questions about a point read the same list with different tests, so the answers for the four
kinds are the one answer for all kinds, dealt out (`FenceCollection.isInterleaving_containing`).
-/

namespace GeoDispatch

/-! ## Lists dealt out by keys -/

/-- Whether a list is made of the lists under some keys, by taking again and again the next entry
of one of them until all are used up. -/
inductive IsInterleaving {κ α : Type} [DecidableEq κ] : (κ → List α) → List α → Prop
  | nil : IsInterleaving (fun _ => []) []
  | cons {parts : κ → List α} {whole : List α} (k : κ) (a : α) (rest : IsInterleaving parts whole) :
    IsInterleaving (Function.update parts k (a :: parts k)) (a :: whole)

/-- A list dealt out by a key is put together again. -/
theorem isInterleaving_filter {κ α : Type} [DecidableEq κ] (key : α → κ) (l : List α) :
    IsInterleaving (fun k => l.filter fun a => key a == k) l := by
  induction l with
  | nil => exact .nil
  | cons a l ih =>
    have parts : (fun k => (a :: l).filter fun b => key b == k) =
        Function.update (fun k => l.filter fun b => key b == k) (key a)
          (a :: l.filter fun b => key b == key a) := by
      funext k
      by_cases same : k = key a
      · subst same
        rw [Function.update_self, List.filter_cons_of_pos (by simp)]
      · rw [Function.update_of_ne same,
          List.filter_cons_of_neg (by simpa using fun he => same he.symm)]
    rw [parts]
    exact ih.cons (key a) a

/-! ## Calls -/

/-- A call that changes a collection. -/
inductive FenceCall where
  | add (f : Fence)
  | remove (id : String)

namespace FenceCall

/-- The fence that a call adds. -/
def fence? : FenceCall → Option Fence
  | add f => some f
  | remove _ => none

/-- The fences that calls add, in order. -/
def added (calls : List FenceCall) : List Fence := calls.filterMap fence?

/-- The queue of an identifier after a call. -/
def carry (id : String) (queue : List Fence) : FenceCall → List Fence
  | add f => if f.id = id then queue ++ [f] else queue
  | remove id' => if id' = id then queue.tail else queue

end FenceCall

namespace FenceCollection

/-- The fences of an identifier among some, in their order. -/
def ofId (id : String) (fs : List Fence) : List Fence := fs.filter fun f => f.id == id

/-- The fences of an identifier, oldest first. -/
def queue (c : FenceCollection) (id : String) : List Fence := ofId id c.fences

/-- The collection after a call. -/
def apply (c : FenceCollection) : FenceCall → FenceCollection
  | .add f => c.add f
  | .remove id => (c.remove id).2

/-- The collection after calls. -/
def after (c : FenceCollection) (calls : List FenceCall) : FenceCollection := calls.foldl apply c

/-- The fence that a call takes out. -/
def takes? (c : FenceCollection) : FenceCall → Option Fence
  | .add _ => none
  | .remove id => (c.remove id).1

/-- The fences that calls take out, in order. -/
def taken (c : FenceCollection) : List FenceCall → List Fence
  | [] => []
  | call :: calls => (c.takes? call).toList ++ (c.apply call).taken calls

/-- Some fences without the first so many of each identifier. -/
def withoutOldest (n : String → Nat) : List Fence → List Fence
  | [] => []
  | f :: fs =>
    if n f.id = 0 then f :: withoutOldest n fs
    else withoutOldest (Function.update n f.id (n f.id - 1)) fs

variable {c : FenceCollection} {f : Fence} {fs front back : List Fence} {id : String}

@[simp] theorem ofId_nil : ofId id [] = [] := rfl

@[simp] theorem ofId_append : ofId id (fs ++ back) = ofId id fs ++ ofId id back :=
  List.filter_append ..

theorem ofId_cons_self (same : f.id = id) : ofId id (f :: fs) = f :: ofId id fs :=
  List.filter_cons_of_pos (beq_iff_eq.mpr same)

theorem ofId_cons_other (other : f.id ≠ id) : ofId id (f :: fs) = ofId id fs :=
  List.filter_cons_of_neg (by simpa using other)

theorem ofId_eq_nil (absent : ∀ g ∈ fs, g.id ≠ id) : ofId id fs = [] :=
  List.filter_eq_nil_iff.mpr fun g hg => by simpa using absent g hg

/-! ## One removal -/

/-- How a removal goes. -/
inductive RemovesOldest (c : FenceCollection) (id : String) : Prop
  /-- No fence has the identifier, and nothing happens. -/
  | absent (none_of_id : ∀ g ∈ c.fences, g.id ≠ id) (unchanged : c.remove id = (none, c))
  /-- The oldest fence of the identifier is returned, and the others close the gap. -/
  | oldest (front : List Fence) (f : Fence) (back : List Fence) (id_eq : f.id = id)
      (none_older : ∀ g ∈ front, g.id ≠ id) (fences_eq : c.fences = front ++ f :: back)
      (remove_eq : c.remove id = (some f, ⟨front ++ back⟩))

theorem remove_cases (c : FenceCollection) (id : String) : c.RemovesOldest id := by
  cases found : c.get? id with
  | none =>
    have absent : ∀ g ∈ c.fences, ¬ (g.id == id) = true := by
      simpa using List.find?_eq_none.mp found
    refine .absent (by simpa using absent) ?_
    rw [remove, found, List.eraseP_of_forall_not absent]
  | some f =>
    obtain ⟨same, front, back, fences, older⟩ := List.find?_eq_some_iff_append.mp found
    have none_older : ∀ g ∈ front, ¬ (g.id == id) = true := by simpa using older
    refine .oldest front f back (beq_iff_eq.mp same) (by simpa using none_older) fences ?_
    rw [remove, found, fences, List.eraseP_append_right _ none_older,
      List.eraseP_cons_of_pos (by exact same)]

theorem queue_eq_cons (fences_eq : c.fences = front ++ f :: back)
    (none_older : ∀ g ∈ front, g.id ≠ f.id) : c.queue f.id = f :: ofId f.id back := by
  rw [queue, fences_eq, ofId_append, ofId_eq_nil none_older, List.nil_append, ofId_cons_self rfl]

theorem get?_eq_head? (c : FenceCollection) (id : String) : c.get? id = (c.queue id).head? :=
  (List.head?_filter ..).symm

/-- A removal takes the front of its queue and leaves the other queues alone. -/
theorem queue_remove (c : FenceCollection) (id id' : String) :
    (c.remove id).2.queue id' = if id = id' then (c.queue id').tail else c.queue id' := by
  cases c.remove_cases id with
  | absent none_of_id unchanged =>
    rw [unchanged]
    split
    · rename_i same
      rw [← same, queue, ofId_eq_nil none_of_id, List.tail_nil]
    · rfl
  | oldest front f back id_eq none_older fences_eq remove_eq =>
    subst id_eq
    rw [remove_eq, queue]
    dsimp only
    rw [ofId_append]
    split
    · rename_i same
      subst same
      rw [queue_eq_cons fences_eq none_older, ofId_eq_nil none_older, List.nil_append,
        List.tail_cons]
    · rename_i other
      rw [queue, fences_eq, ofId_append, ofId_cons_other other]

/-- A call does to the queue of an identifier what it means to the identifier. -/
theorem queue_apply (c : FenceCollection) (call : FenceCall) (id : String) :
    (c.apply call).queue id = call.carry id (c.queue id) := by
  cases call with
  | add f =>
    show ofId id (c.fences ++ [f]) = _
    rw [ofId_append, FenceCall.carry]
    split
    · rename_i same
      rw [ofId_cons_self same]
      rfl
    · rename_i other
      rw [ofId_cons_other other, ofId_nil, List.append_nil]
      rfl
  | remove id' => exact c.queue_remove id' id

theorem queue_after (c : FenceCollection) (calls : List FenceCall) (id : String) :
    (c.after calls).queue id = calls.foldl (FenceCall.carry id) (c.queue id) := by
  induction calls generalizing c with
  | nil => rfl
  | cons call calls ih =>
    rw [List.foldl_cons, ← c.queue_apply call id]
    exact ih (c.apply call)

/-! ## What is left of the additions -/

/-- A fence added last stays if no more fences of its identifier are left out than were added
before. -/
theorem withoutOldest_concat {n : String → Nat} (enough : n f.id ≤ (ofId f.id fs).length) :
    withoutOldest n (fs ++ [f]) = withoutOldest n fs ++ [f] := by
  induction fs generalizing n with
  | nil =>
    rw [ofId_nil, List.length_nil, Nat.le_zero] at enough
    simp [withoutOldest, enough]
  | cons g gs ih =>
    rw [List.cons_append, withoutOldest, withoutOldest]
    by_cases same : g.id = f.id
    · rw [ofId_cons_self same, List.length_cons] at enough
      split
      · rename_i spent
        rw [ih (by rw [← same, spent]; exact Nat.zero_le _), List.cons_append]
      · rw [ih (by rw [same, Function.update_self]; omega)]
    · rw [ofId_cons_other same] at enough
      split
      · rw [ih enough, List.cons_append]
      · rw [ih (by rwa [Function.update_of_ne (Ne.symm same)])]

/-- Taking out the oldest fence of an identifier leaves out one more of it. -/
theorem eraseP_withoutOldest (n : String → Nat) (fs : List Fence) (id : String) :
    (withoutOldest n fs).eraseP (fun f => f.id == id) =
      withoutOldest (Function.update n id (n id + 1)) fs := by
  induction fs generalizing n with
  | nil => rfl
  | cons g gs ih =>
    rw [withoutOldest, withoutOldest]
    by_cases same : g.id = id
    · subst same
      rw [Function.update_self, if_neg (Nat.succ_ne_zero _), Function.update_idem,
        Nat.add_sub_cancel, Function.update_eq_self]
      split
      · rw [List.eraseP_cons_of_pos (by simp)]
      · rename_i left
        rw [ih, Function.update_self, Function.update_idem,
          Nat.sub_add_cancel (Nat.one_le_iff_ne_zero.mpr left), Function.update_eq_self]
    · rw [Function.update_of_ne same]
      split
      · rw [List.eraseP_cons_of_neg (by simpa using same), ih]
      · rw [ih, Function.update_of_ne (Ne.symm same), Function.update_comm (Ne.symm same)]

/-- A collection is what is left of additions after some fences were taken out. -/
structure IsLeft (added taken : List Fence) (c : FenceCollection) : Prop where
  /-- What was taken out of an identifier is what was added of it first. -/
  queue : ∀ id, ofId id added = ofId id taken ++ c.queue id
  /-- What stays, stays in the order of the additions. -/
  fences_eq : c.fences = withoutOldest (fun id => (ofId id taken).length) added
  length_eq : c.fences.length + taken.length = added.length

theorem isLeft_empty : IsLeft [] [] empty := ⟨fun _ => rfl, rfl, rfl⟩

namespace IsLeft

variable {added taken : List Fence}

theorem add (h : IsLeft added taken c) (f : Fence) : IsLeft (added ++ [f]) taken (c.add f) where
  queue id := by
    rw [ofId_append, h.queue id, List.append_assoc]
    exact congrArg _ ofId_append.symm
  fences_eq := by
    have enough : (ofId f.id taken).length ≤ (ofId f.id added).length := by
      rw [h.queue, List.length_append]
      exact Nat.le_add_right ..
    rw [withoutOldest_concat enough, ← h.fences_eq]
    rfl
  length_eq := by
    have := h.length_eq
    show (c.fences ++ [f]).length + taken.length = _
    simp only [List.length_append, List.length_singleton]
    omega

theorem remove (h : IsLeft added taken c) (id : String) :
    IsLeft added (taken ++ (c.remove id).1.toList) (c.remove id).2 := by
  cases c.remove_cases id with
  | absent none_of_id unchanged =>
    rw [unchanged, Option.toList_none, List.append_nil]
    exact h
  | oldest front f back id_eq none_older fences_eq remove_eq =>
    subst id_eq
    have tail := c.queue_remove f.id
    have erased : c.fences.eraseP (fun g => g.id == f.id) = front ++ back :=
      congrArg (fun answer => answer.2.fences) remove_eq
    have counts : (fun id => (ofId id (taken ++ [f])).length) =
        Function.update (fun id => (ofId id taken).length) f.id
          ((ofId f.id taken).length + 1) := by
      funext id
      rw [ofId_append, List.length_append]
      by_cases same : f.id = id
      · subst same
        rw [Function.update_self, ofId_cons_self rfl]
        rfl
      · rw [Function.update_of_ne (Ne.symm same), ofId_cons_other same]
        rfl
    rw [remove_eq] at tail ⊢
    refine ⟨fun id => ?_, ?_, ?_⟩
    · rw [tail, h.queue id, Option.toList_some, ofId_append, List.append_assoc]
      congr 1
      split
      · rename_i same
        subst same
        rw [queue_eq_cons fences_eq none_older, ofId_cons_self rfl]
        rfl
      · rename_i other
        rw [ofId_cons_other other]
        rfl
    · rw [Option.toList_some, counts, ← eraseP_withoutOldest, ← h.fences_eq, erased]
    · have whole := h.length_eq
      rw [fences_eq] at whole
      simp only [Option.toList_some, List.length_append, List.length_cons, List.length_nil]
        at whole ⊢
      omega

/-- **The step of the invariant.** -/
theorem apply (h : IsLeft added taken c) (call : FenceCall) :
    IsLeft (added ++ call.fence?.toList) (taken ++ (c.takes? call).toList) (c.apply call) := by
  cases call with
  | add f =>
    rw [takes?, Option.toList_none, List.append_nil]
    exact h.add f
  | remove id =>
    rw [FenceCall.fence?, Option.toList_none, List.append_nil]
    exact h.remove id

theorem after (h : IsLeft added taken c) (calls : List FenceCall) :
    IsLeft (added ++ FenceCall.added calls) (taken ++ c.taken calls) (c.after calls) := by
  induction calls generalizing added taken c with
  | nil =>
    rw [FenceCall.added, List.filterMap_nil, List.append_nil, FenceCollection.taken,
      List.append_nil]
    exact h
  | cons call calls ih =>
    have later := ih (h.apply call)
    rw [List.append_assoc, List.append_assoc] at later
    have fences : call.fence?.toList ++ FenceCall.added calls =
        FenceCall.added (call :: calls) := by
      rw [FenceCall.added, FenceCall.added, List.filterMap_cons]
      cases call.fence? <;> rfl
    rw [fences] at later
    exact later

end IsLeft

/-! ## Questions about a point -/

theorem containingOfKind_eq (c : FenceCollection) (p : Point Float) (k : FenceKind) :
    c.containingOfKind p k = (c.containing p).filter fun f => f.kind == k :=
  List.filter_filter.symm

/-- The fences around a point, dealt out by their kinds. -/
theorem isInterleaving_containing (c : FenceCollection) (p : Point Float) :
    IsInterleaving (c.containingOfKind p) (c.containing p) := by
  rw [funext (c.containingOfKind_eq p)]
  exact isInterleaving_filter Fence.kind _

theorem inServiceArea_iff (c : FenceCollection) (p : Point Float) :
    c.inServiceArea p ↔ c.containingOfKind p .serviceArea ≠ [] := by
  rw [inServiceArea, containingOfKind, List.any_eq_true, Ne, List.filter_eq_nil_iff]
  simp

/-- **A collection is a queue for each identifier, inside one order.**  After any additions and
removals of a collection without fences, the fences of an identifier are those of a queue in which
every addition of the identifier was put and from which every removal took: what was taken out and
what is there, one after the other, are what was added.  All fences stand in the order in which
they were added, without the oldest ones of each identifier as far as they were taken out, and
there are as many as were added less those taken out.  A look-up gives the front of the queue; a
removal gives the same fence and takes it out from between the others, so that the next one of the
queue comes to the front and no other queue changes.

The fences of a kind around a point are those of that kind among the fences around it, which stand
in the order of the collection and are the interleaving of those of the four kinds; the point is
in a service area when there is a fence of that kind around it. -/
theorem history_is_queue_per_id (calls : List FenceCall) :
    let c := empty.after calls
    let added := FenceCall.added calls
    let taken := empty.taken calls
    (∀ id, c.queue id = calls.foldl (FenceCall.carry id) []) ∧
    (∀ id, ofId id added = ofId id taken ++ c.queue id) ∧
    c.fences = withoutOldest (fun id => (ofId id taken).length) added ∧
    c.size + taken.length = added.length ∧
    (∀ id, c.get? id = (c.queue id).head? ∧ (c.remove id).1 = (c.queue id).head? ∧
      c.RemovesOldest id ∧ ∀ id', (c.remove id).2.queue id' =
        if id = id' then (c.queue id').tail else c.queue id') ∧
    ∀ p, (c.containing p).Sublist c.fences ∧
      (∀ k, c.containingOfKind p k = (c.containing p).filter fun f => f.kind == k) ∧
      IsInterleaving (c.containingOfKind p) (c.containing p) ∧
      (c.inServiceArea p ↔ c.containingOfKind p .serviceArea ≠ []) := by
  intro c added taken
  have left : IsLeft added taken c := isLeft_empty.after calls
  refine ⟨empty.queue_after calls, left.queue, left.fences_eq, left.length_eq, fun id => ?_,
    fun p => ?_⟩
  · exact ⟨c.get?_eq_head? id, c.get?_eq_head? id, c.remove_cases id, c.queue_remove id⟩
  · exact ⟨List.filter_sublist, c.containingOfKind_eq p, c.isInterleaving_containing p,
      c.inServiceArea_iff p⟩

end FenceCollection

end GeoDispatch
