import GeoDispatch.Json.Codec
import GeoDispatch.Proofs.Json.Lexing
import GeoDispatch.Proofs.Json.Value

/-! # A written value is read back

A value is written as tokens without blanks between them.  When all of it has a meaning
(`Value.isDefinite`), its tokens are read back from its text (`Value.isWritten_tokens`), and the
tokens of any value are read back as this value (`State.readAll_tokens`): so the text of a definite
value denotes it (`parse?_render`).  All of this is by recursion over the value, with one statement
each for values, for the items of an array and for the members of an object.
-/

namespace GeoDispatch.Json

namespace Token

/-! ## Tokens before tokens -/

/-- Tokens of which the first one, if there is one, is a mark. -/
def StartWithMark (ts : List Token) : Prop := ∀ t ∈ ts.head?, t.isMark

theorem startWithMark_cons {t : Token} (h : t.isMark) (ts : List Token) :
    StartWithMark (t :: ts) := by
  intro t' ht'
  rwa [← Option.mem_some.mp ht']

theorem isWritten_nil : IsWritten [] :=
  ⟨fun _ ht => absurd ht List.not_mem_nil, .nil⟩

theorem IsWritten.cons {t : Token} {ts : List Token} (h : IsWritten ts) (sound : t.IsSound)
    (ends : t.isRun → StartWithMark ts) : IsWritten (t :: ts) := by
  constructor
  · exact List.forall_mem_cons.mpr ⟨sound, h.1⟩
  · cases ts with
    | nil => exact .singleton t
    | cons t' ts => exact .cons_cons (fun run => ends run t' rfl) h.2

/-- Marks and texts may stand before any tokens. -/
theorem IsWritten.cons_of_not_isRun {t : Token} {ts : List Token} (h : IsWritten ts)
    (sound : t.IsSound) (apart : t.isRun = false) : IsWritten (t :: ts) :=
  h.cons sound fun run => by rw [apart] at run; cases run

end Token

namespace Value

open Token

/-! ## The tokens of a value can be written -/

theorem tokens_array_append (items : List Value) (rest : List Token) :
    (array items).tokens ++ rest =
      .openArray :: (tokensOfItems items ++ .closeArray :: rest) := by
  simp only [tokens, List.cons_append, List.append_assoc, List.nil_append]

theorem tokens_object_append (members : List (Text × Value)) (rest : List Token) :
    (object members).tokens ++ rest =
      .openObject :: (tokensOfMembers members ++ .closeObject :: rest) := by
  simp only [tokens, List.cons_append, List.append_assoc, List.nil_append]

theorem tokensOfItems_cons_append (v w : Value) (ws : List Value) (rest : List Token) :
    tokensOfItems (v :: w :: ws) ++ rest =
      v.tokens ++ .comma :: (tokensOfItems (w :: ws) ++ rest) := by
  rw [tokensOfItems]
  · rw [List.append_assoc, List.cons_append]
  · exact List.cons_ne_nil w ws

theorem tokensOfMembers_cons_append (k : Text) (v : Value) (m : Text × Value)
    (ms : List (Text × Value)) (rest : List Token) :
    tokensOfMembers ((k, v) :: m :: ms) ++ rest =
      .text k :: .colon :: (v.tokens ++ .comma :: (tokensOfMembers (m :: ms) ++ rest)) := by
  rw [tokensOfMembers]
  · simp only [List.cons_append, List.append_assoc]
  · exact List.cons_ne_nil m ms

/-- The key of a member and its colon may stand before any tokens. -/
theorem isWritten_key {k : Text} (key : k.isSome) {ts : List Token} (h : IsWritten ts) :
    IsWritten (.text k :: .colon :: ts) :=
  (h.cons_of_not_isRun (t := .colon) trivial rfl).cons_of_not_isRun
    (Option.isSome_iff_exists.mp key) rfl

mutual

/-- The tokens of a definite value can be written before a mark. -/
theorem isWritten_tokens_append (v : Value) (definite : v.isDefinite) {rest : List Token}
    (h : IsWritten rest) (mark : StartWithMark rest) : IsWritten (v.tokens ++ rest) := by
  match v with
  | null => exact h.cons trivial fun _ => mark
  | bool b => exact h.cons trivial fun _ => mark
  | number s =>
    obtain ⟨x, hx⟩ := Option.isSome_iff_exists.mp definite
    obtain ⟨n, hn, -⟩ := Option.bind_eq_some_iff.mp hx
    exact h.cons ⟨n, hn⟩ fun _ => mark
  | text s => exact h.cons_of_not_isRun (Option.isSome_iff_exists.mp definite) rfl
  | array items =>
    have close : IsWritten (.closeArray :: rest) := h.cons_of_not_isRun trivial rfl
    rw [tokens_array_append]
    exact (isWritten_tokensOfItems_append items definite close
      (startWithMark_cons rfl rest)).cons_of_not_isRun trivial rfl
  | object members =>
    have close : IsWritten (.closeObject :: rest) := h.cons_of_not_isRun trivial rfl
    rw [tokens_object_append]
    exact (isWritten_tokensOfMembers_append members definite close
      (startWithMark_cons rfl rest)).cons_of_not_isRun trivial rfl

theorem isWritten_tokensOfItems_append (vs : List Value) (definite : areDefinite vs)
    {rest : List Token} (h : IsWritten rest) (mark : StartWithMark rest) :
    IsWritten (tokensOfItems vs ++ rest) := by
  match vs with
  | [] => exact h
  | [v] => exact isWritten_tokens_append v (Bool.and_eq_true_iff.mp definite).1 h mark
  | v :: w :: ws =>
    obtain ⟨first, others⟩ := Bool.and_eq_true_iff.mp definite
    have after := isWritten_tokensOfItems_append (w :: ws) others h mark
    rw [tokensOfItems_cons_append]
    exact isWritten_tokens_append v first (after.cons_of_not_isRun trivial rfl)
      (startWithMark_cons rfl _)

theorem isWritten_tokensOfMembers_append (ms : List (Text × Value))
    (definite : areDefiniteMembers ms) {rest : List Token} (h : IsWritten rest)
    (mark : StartWithMark rest) : IsWritten (tokensOfMembers ms ++ rest) := by
  match ms with
  | [] => exact h
  | [(k, v)] =>
    obtain ⟨member, -⟩ := Bool.and_eq_true_iff.mp definite
    obtain ⟨key, value⟩ := Bool.and_eq_true_iff.mp member
    exact isWritten_key key (isWritten_tokens_append v value h mark)
  | (k, v) :: m :: ms =>
    obtain ⟨member, others⟩ := Bool.and_eq_true_iff.mp definite
    obtain ⟨key, value⟩ := Bool.and_eq_true_iff.mp member
    have after := isWritten_tokensOfMembers_append (m :: ms) others h mark
    rw [tokensOfMembers_cons_append]
    exact isWritten_key key (isWritten_tokens_append v value (after.cons_of_not_isRun trivial rfl)
      (startWithMark_cons rfl _))

end

theorem isWritten_tokens {v : Value} (definite : v.isDefinite) : IsWritten v.tokens := by
  have written := isWritten_tokens_append v definite isWritten_nil fun t ht => by cases ht
  rwa [List.append_nil] at written

end Value

namespace State

open Value

/-! ## The tokens of a value are read as this value -/

/-- No value starts with the end of an array, so any value may come first in one. -/
theorem readAll_firstItem (v : Value) (stack : List Frame) (rest : List Token) :
    (firstItem stack).readAll (v.tokens ++ rest) =
      (value (.array [] :: stack)).readAll (v.tokens ++ rest) := by
  cases v <;> rfl

theorem readAll_firstItem_cons (v : Value) (vs : List Value) (stack : List Frame)
    (rest : List Token) :
    (firstItem stack).readAll (tokensOfItems (v :: vs) ++ rest) =
      (value (.array [] :: stack)).readAll (tokensOfItems (v :: vs) ++ rest) := by
  cases vs with
  | nil => exact readAll_firstItem v stack rest
  | cons w ws =>
    rw [tokensOfItems_cons_append]
    exact readAll_firstItem v stack _

mutual

/-- The tokens of a value are read as this value, whatever follows. -/
theorem readAll_tokens (v : Value) (stack : List Frame) (rest : List Token) :
    (value stack).readAll (v.tokens ++ rest) = (complete v stack).readAll rest := by
  match v with
  | .null | .bool b | .number s | .text s | .array [] | .object [] => rfl
  | .array (v :: vs) =>
    rw [tokens_array_append]
    calc (firstItem stack).readAll (tokensOfItems (v :: vs) ++ .closeArray :: rest)
      _ = (value (.array [] :: stack)).readAll (tokensOfItems (v :: vs) ++ .closeArray :: rest) :=
          readAll_firstItem_cons v vs stack _
      _ = (complete (.array (v :: vs)) stack).readAll rest :=
          readAll_tokensOfItems (v :: vs) (List.cons_ne_nil v vs) [] stack rest
  | .object (m :: ms) =>
    rw [tokens_object_append]
    exact readAll_tokensOfMembers (m :: ms) (List.cons_ne_nil m ms) [] stack rest

/-- The items of an array are read after those before them, up to the end of the array. -/
theorem readAll_tokensOfItems (vs : List Value) (nonempty : vs ≠ []) (before : List Value)
    (stack : List Frame) (rest : List Token) :
    (value (.array before :: stack)).readAll (tokensOfItems vs ++ .closeArray :: rest) =
      (complete (.array (before.reverse ++ vs)) stack).readAll rest := by
  match vs with
  | [] => exact absurd rfl nonempty
  | [v] =>
    rw [tokensOfItems, readAll_tokens v]
    change (complete (.array (v :: before).reverse) stack).readAll rest = _
    rw [List.reverse_cons]
  | v :: w :: ws =>
    rw [tokensOfItems_cons_append, readAll_tokens v]
    calc (value (.array (v :: before) :: stack)).readAll
          (tokensOfItems (w :: ws) ++ .closeArray :: rest)
      _ = (complete (.array ((v :: before).reverse ++ w :: ws)) stack).readAll rest :=
          readAll_tokensOfItems (w :: ws) (List.cons_ne_nil w ws) (v :: before) stack rest
      _ = (complete (.array (before.reverse ++ v :: w :: ws)) stack).readAll rest := by
          rw [List.reverse_cons, List.append_assoc, List.singleton_append]

/-- The members of an object are read after those before them, up to the end of the object. -/
theorem readAll_tokensOfMembers (ms : List (Text × Value)) (nonempty : ms ≠ [])
    (before : List (Text × Value)) (stack : List Frame) (rest : List Token) :
    (key before stack).readAll (tokensOfMembers ms ++ .closeObject :: rest) =
      (complete (.object (before.reverse ++ ms)) stack).readAll rest := by
  match ms with
  | [] => exact absurd rfl nonempty
  | [(k, v)] =>
    change (value (.member before k :: stack)).readAll (v.tokens ++ .closeObject :: rest) = _
    rw [readAll_tokens v]
    change (complete (.object ((k, v) :: before).reverse) stack).readAll rest = _
    rw [List.reverse_cons]
  | (k, v) :: m :: ms =>
    rw [tokensOfMembers_cons_append]
    change (value (.member before k :: stack)).readAll (v.tokens ++ _) = _
    rw [readAll_tokens v]
    calc (key ((k, v) :: before) stack).readAll (tokensOfMembers (m :: ms) ++ .closeObject :: rest)
      _ = (complete (.object (((k, v) :: before).reverse ++ m :: ms)) stack).readAll rest :=
          readAll_tokensOfMembers (m :: ms) (List.cons_ne_nil m ms) ((k, v) :: before) stack rest
      _ = (complete (.object (before.reverse ++ (k, v) :: m :: ms)) stack).readAll rest := by
          rw [List.reverse_cons, List.append_assoc, List.singleton_append]

end

end State

/-! ## Documents -/

/-- The text of a definite value denotes this value. -/
theorem parse?_render {v : Value} (definite : v.isDefinite) : parse? v.render = some v := by
  have tokens : tokens? v.render = some v.tokens := by
    rw [tokens?, Value.render, String.toList_ofList]
    exact Mode.readAll_flatMap_characters (Value.isWritten_tokens definite)
  have value := State.readAll_tokens v [] []
  rw [List.append_nil] at value
  rw [parse?, tokens, Option.bind_some, value]
  rfl

/-- The text of a definite value that is not nested too deeply is read as a whole. -/
theorem parseWhole?_render {v : Value} (definite : v.isDefinite) (flat : v.depth ≤ Value.maxDepth) :
    parseWhole? v.render = some v :=
  parseWhole?_eq_some_iff.mpr ⟨parse?_render definite, definite, flat⟩

namespace Codec

variable {β : Type} [Codec β]

/-- A value is read back from its document when the encoding of it is definite and is decoded. -/
theorem read_write {x : β} (definite : (encode x).isDefinite)
    (decoded : decode? (encode x) = some x) : read β (write x) = .ok x := by
  rw [read, write, parse?_render definite, Option.bind_some, decoded]

end Codec

end GeoDispatch.Json
