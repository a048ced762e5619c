import GeoDispatch.Json.Decode
import GeoDispatch.Proofs.Sequence.Partial

/-! # Fields of records among other members

A field of a record is looked up among the members of an object by its name
(`Decoder.fields_object`), so members of other names come and go without it
(`Decoder.member?_other`).  A record that is read with a member is read without it as well, with
this field missing and the others as they were (`Decoder.fields_without`).
-/

namespace GeoDispatch.Json.Decoder

/-- The field of a name among the members of an object: missing, or there once. -/
def member? (members : List (Text × Value)) (name : String) : Option (Option Value) :=
  match members.filter fun m => m.1 == some name with
  | [] => some none
  | [m] => some (some m.2)
  | _ => none

theorem fields_object (names : List String) (members : List (Text × Value)) :
    fields names (.object members) =
      if members.all fun m => m.1.isSome then names.mapM (member? members) else none := rfl

variable {front back : List (Text × Value)} {k : Text} {v : Value} {name : String}

theorem member?_other (other : k ≠ some name) :
    member? (front ++ (k, v) :: back) name = member? (front ++ back) name := by
  have passed : ((k, v) :: back).filter (fun m => m.1 == some name) =
      back.filter fun m => m.1 == some name :=
    List.filter_cons_of_neg (by rwa [beq_iff_eq])
  rw [member?, member?, List.filter_append, passed, ← List.filter_append]

theorem member?_absent {members : List (Text × Value)} (absent : ∀ m ∈ members, m.1 ≠ some name) :
    member? members name = some none := by
  have none_left : members.filter (fun m => m.1 == some name) = [] := by
    rw [List.filter_eq_nil_iff]
    intro m hm
    rw [beq_iff_eq]
    exact absent m hm
  rw [member?, none_left]

/-- A record that is read with a member for its last field is read without that member too: the
field is missing, and the other fields have the values that they had. -/
theorem fields_without (names : List String) (other : name ∉ names)
    (absent : ∀ m ∈ front ++ back, m.1 ≠ some name) {values : List (Option Value)}
    (h : fields (names ++ [name]) (.object (front ++ (some name, v) :: back)) = some values) :
    fields (names ++ [name]) (.object (front ++ back)) = some (values.dropLast ++ [none]) := by
  rw [fields_object] at h ⊢
  split_ifs at h with keys
  have keys' : ((front ++ back).all fun m => m.1.isSome) = true := by
    rw [List.all_append, List.all_cons, Bool.and_eq_true_iff, Bool.and_eq_true_iff] at keys
    rw [List.all_append, keys.1, keys.2.2]
    rfl
  have same : names.map (member? (front ++ (some name, v) :: back)) =
      names.map (member? (front ++ back)) := by
    refine List.map_congr_left fun n hn => member?_other fun h => ?_
    exact other (Option.some.inj h ▸ hn)
  rw [mapM_eq_some_iff, List.map_append, same] at h
  have others : values.dropLast.map some = names.map (member? (front ++ back)) := by
    rw [List.map_dropLast, ← h]
    exact List.dropLast_concat
  rw [if_pos keys', mapM_eq_some_iff, List.map_append, List.map_append, others, List.map_singleton,
    member?_absent absent]
  rfl

end GeoDispatch.Json.Decoder
