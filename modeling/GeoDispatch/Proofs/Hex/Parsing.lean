import GeoDispatch.Hex.Documents
import GeoDispatch.Proofs.Hex.Spelling
import GeoDispatch.Proofs.Json.RoundTrip
import GeoDispatch.Proofs.Number.Canonical

/-! # The texts and numbers that are read as cells

A text is read as a cell exactly when it consists of one to sixteen hexadecimal digits, in either
case, that spell the index of a cell at a served level; what is wrong with other texts is told
apart by the same two conditions (`Cell.IsDigits`, `Cell.Served`).  A cell has one number
(`Cell.ofNumber_eq_ok_iff`) and one canonical text, and its other texts differ from this one only
in letter case and in zeros before it (`Cell.canonical_of_parse`).
-/

namespace GeoDispatch

namespace Cell

open Hexadecimal Json

/-- Texts of one to sixteen hexadecimal digits, in either case. -/
def IsDigits (s : String) : Prop :=
  0 < s.length ∧ s.length ≤ 16 ∧ ∀ c ∈ s.toList, c.toLower ∈ alphabet

/-- Indices of the served levels. -/
def Served (n : Nat) : Prop := ∃ a, Address.ofIndex? n = .ok a ∧ a.level ∈ [7, 8, 9]

/-! ## Cells by number -/

theorem ofAddress?_eq_some {a : Address} {c : Cell} (h : ofAddress? a = some c) :
    c.address = a := by
  unfold ofAddress? at h
  split at h
  · cases h
    rfl
  · cases h

theorem exists_ofAddress? (a : Address) :
    (∃ c, ofAddress? a = some c) ↔ a.level ∈ [7, 8, 9] := by
  constructor
  · rintro ⟨c, hc⟩
    rw [← ofAddress?_eq_some hc, c.level_eq]
    cases c.resolution <;> decide
  · intro served
    have served : (Resolution.ofLevel? a.level).isSome := by
      have levels : ∀ n ∈ [7, 8, 9], (Resolution.ofLevel? n).isSome := by decide
      exact levels _ served
    unfold ofAddress?
    split
    · exact ⟨_, rfl⟩
    · rename_i unserved
      rw [unserved] at served
      cases served

/-- A number is read as the cell that has it. -/
theorem ofNumber_eq_ok_iff {n : UInt64} {c : Cell} : ofNumber n = .ok c ↔ c.number = n := by
  constructor
  · intro h
    unfold ofNumber at h
    split at h
    · cases h
    · rename_i a ha
      split at h
      · rename_i c' hc
        obtain rfl := Except.ok.inj h
        obtain rfl := ofAddress?_eq_some hc
        rw [← UInt64.toNat_inj, toNat_number]
        exact Address.index_of_ofIndex? ha n.toNat_lt
      · cases h
  · rintro rfl
    exact ofNumber_number c

theorem exists_ofNumber (n : UInt64) : (∃ c, ofNumber n = .ok c) ↔ Served n.toNat := by
  constructor
  · rintro ⟨c, hc⟩
    obtain rfl := ofNumber_eq_ok_iff.mp hc
    rw [toNat_number]
    exact ⟨c.address, Address.ofIndex?_index c.level_le,
      (exists_ofAddress? _).mp ⟨c, c.ofAddress?_address⟩⟩
  · rintro ⟨a, ha, served⟩
    obtain ⟨c, hc⟩ := (exists_ofAddress? a).mpr served
    refine ⟨c, ?_⟩
    rw [ofNumber, ha]
    simp only [hc]

/-- What is wrong with a number is worded with the number in front. -/
theorem ofNumber_eq_error {n : UInt64} {e : GeoError} (h : ofNumber n = .error e) :
    ∃ fault rest, e = .invalidCellFormat fault ∧
      fault.message = "0x" ++ Hexadecimal.text n.toNat ++ rest := by
  unfold ofNumber at h
  split at h
  · rename_i fault _
    refine ⟨.invalid n.toNat fault,
      ": invalid cell index (got Some(" ++ toString n.toNat ++ ")): " ++ fault.message,
      (Except.error.inj h).symm, ?_⟩
    simp only [CellFault.message, hexLiteral, String.append_assoc]
  · rename_i a _
    split at h
    · cases h
    · refine ⟨.unsupported n.toNat a.level, ": unsupported resolution " ++ toString a.level,
        (Except.error.inj h).symm, ?_⟩
      simp only [CellFault.message, hexLiteral, String.append_assoc]

/-! ## Cells by text -/

variable {s : String} {c : Cell}

/-- Sixteen digits fit into 64 bits, so the number that they spell is read without loss. -/
theorem parseNumber?_of_isDigits (h : IsDigits s) :
    ∃ n, parseNumber? s = some n ∧ n.toNat = spelled s.toList := by
  obtain ⟨pos, short, digits⟩ := h
  have fits : spelled s.toList < 2 ^ 64 := by
    calc spelled s.toList
      _ < 16 ^ s.toList.length := spelled_lt digits
      _ ≤ 16 ^ 16 := Nat.pow_le_pow_right (by decide) (by rwa [String.length_toList])
      _ = 2 ^ 64 := by decide
  have allowed : ¬ (s.isEmpty || decide (16 < s.length)) = true := by
    simp only [Bool.or_eq_true, decide_eq_true_eq, String.isEmpty_iff, not_or]
    refine ⟨?_, by omega⟩
    rintro rfl
    exact absurd pos (by decide)
  refine ⟨(spelled s.toList).toUInt64, ?_, ?_⟩
  · rw [parseNumber?, if_neg allowed, read?_eq_some_iff.mpr ⟨digits, rfl⟩, Option.map_some]
  · rw [Nat.toUInt64_eq, UInt64.toNat_ofNat_of_lt' fits]

theorem isDigits_of_parseNumber? {n : UInt64} (h : parseNumber? s = some n) : IsDigits s := by
  unfold parseNumber? at h
  split_ifs at h with allowed
  obtain ⟨m, hm, -⟩ := Option.map_eq_some_iff.mp h
  simp only [Bool.or_eq_true, decide_eq_true_eq, String.isEmpty_iff, not_or, not_lt] at allowed
  refine ⟨Nat.pos_of_ne_zero ?_, allowed.2, (read?_eq_some_iff.mp hm).1⟩
  exact fun empty => allowed.1 (String.length_eq_zero_iff.mp empty)

theorem parse_of_isDigits (h : IsDigits s) :
    ∃ n, parse s = ofNumber n ∧ n.toNat = spelled s.toList := by
  obtain ⟨n, hn, value⟩ := parseNumber?_of_isDigits h
  refine ⟨n, ?_, value⟩
  rw [parse, hn]

theorem parse_of_not_isDigits (h : ¬ IsDigits s) :
    parse s = .error (.invalidCellFormat (.malformed s)) := by
  cases hn : parseNumber? s with
  | none => rw [parse, hn]
  | some n => exact absurd (isDigits_of_parseNumber? hn) h

theorem isDigits_of_parse (h : parse s = .ok c) : IsDigits s := by
  by_contra other
  rw [parse_of_not_isDigits other] at h
  cases h

theorem exists_parse (s : String) :
    (∃ c, parse s = .ok c) ↔ IsDigits s ∧ Served (spelled s.toList) := by
  constructor
  · rintro ⟨c, hc⟩
    have digits := isDigits_of_parse hc
    obtain ⟨n, hn, value⟩ := parse_of_isDigits digits
    rw [← value]
    exact ⟨digits, (exists_ofNumber n).mp ⟨c, hn.symm.trans hc⟩⟩
  · rintro ⟨digits, served⟩
    obtain ⟨n, hn, value⟩ := parse_of_isDigits digits
    rw [← value] at served
    rw [hn]
    exact (exists_ofNumber n).mpr served

theorem toNat_number_of_parse (h : parse s = .ok c) : c.number.toNat = spelled s.toList := by
  obtain ⟨n, hn, value⟩ := parse_of_isDigits (isDigits_of_parse h)
  rw [ofNumber_eq_ok_iff.mp (hn.symm.trans h), value]

/-! ## Canonical texts -/

theorem toNat_number_ne_zero (c : Cell) : c.number.toNat ≠ 0 := by
  have mode := (Address.index_fields c.level_le).2.1
  rw [← toNat_number] at mode
  intro zero
  rw [zero] at mode
  cases mode

/-- The text of a cell is the canonical spelling of it. -/
theorem canonical_of_parse (h : parse s = .ok c) : canonical s.toList = c.text.toList := by
  have number := toNat_number_of_parse h
  rw [canonical_eq (isDigits_of_parse h).2.2, ← number, if_neg c.toNat_number_ne_zero, text,
    Hexadecimal.text, String.toList_ofList]

theorem canonical_text (c : Cell) : canonical c.text.toList = c.text.toList :=
  canonical_of_parse c.parse_text

theorem mem_alphabet_of_mem_text {d : Char} (h : d ∈ c.text.toList) : d ∈ alphabet := by
  have digits := (isDigits_of_parse c.parse_text).2.2
  rw [← canonical_text] at h
  exact mem_alphabet_of_mem_canonical digits h

theorem head?_text (c : Cell) : c.text.toList.head? ≠ some '0' := by
  rw [← canonical_text]
  exact head?_canonical _

/-- Two texts are read as one cell exactly when they differ only in letter case and in the zeros
before them. -/
theorem eq_iff_canonical {t : String} {d : Cell} (hc : parse s = .ok c) (hd : parse t = .ok d) :
    c = d ↔ canonical s.toList = canonical t.toList := by
  have number : c = d ↔ c.number.toNat = d.number.toNat := by
    rw [UInt64.toNat_inj, ← ofNumber_eq_ok_iff, ofNumber_number, Except.ok.injEq, eq_comm]
  rw [number, toNat_number_of_parse hc, toNat_number_of_parse hd,
    spelled_eq_iff (isDigits_of_parse hc).2.2 (isDigits_of_parse hd).2.2]

/-! ## Documents of cells -/

theorem decode?_ofString (s : String) :
    (Codec.decode? (.ofString s) : Option Cell) = some c ↔ parse s = .ok c := by
  have decoded : (Codec.decode? (.ofString s) : Option Cell) = (parse s).toOption := by
    change Option.bind (some s) _ = _
    rw [Option.bind_some]
    cases parse s <;> rfl
  rw [decoded]
  cases parse s with
  | ok c' =>
    exact ⟨fun h => congrArg Except.ok (Option.some.inj h),
      fun h => congrArg some (Except.ok.inj h)⟩
  | error e => exact ⟨nofun, nofun⟩

theorem exists_of_decode? {v : Value} (h : Codec.decode? v = some c) : ∃ s, v = .ofString s := by
  cases v with
  | text t =>
    cases t with
    | some s => exact ⟨s, rfl⟩
    | none => cases h
  | null | bool | number | array | object => cases h

/-- A document is read as a cell when it denotes a text that is. -/
theorem read_eq_ok_iff {document : String} : Codec.read Cell document = .ok c ↔
    ∃ s, parse? document = some (.ofString s) ∧ parse s = .ok c := by
  have read : Codec.read Cell document = .ok c ↔
      (parse? document).bind Codec.decode? = some c := by
    unfold Codec.read
    cases (parse? document).bind (Codec.decode? : Decoder Cell) with
    | some c' => exact ⟨fun h => congrArg some (Except.ok.inj h), fun h => by cases h; rfl⟩
    | none => exact ⟨nofun, nofun⟩
  rw [read, Option.bind_eq_some_iff]
  constructor
  · rintro ⟨v, hv, hc⟩
    obtain ⟨s, rfl⟩ := exists_of_decode? hc
    exact ⟨s, hv, (decode?_ofString s).mp hc⟩
  · rintro ⟨s, hs, hc⟩
    exact ⟨_, hs, (decode?_ofString s).mpr hc⟩

/-- The document of a text is read as a cell when the text is. -/
theorem read_write_string (s : String) :
    Codec.read Cell (Codec.write s) = .ok c ↔ parse s = .ok c := by
  have document : parse? (Codec.write s) = some (.ofString s) := parse?_render rfl
  rw [read_eq_ok_iff, document]
  constructor
  · rintro ⟨t, same, ht⟩
    cases same
    exact ht
  · exact fun h => ⟨s, rfl, h⟩

theorem read_write (c : Cell) : Codec.read Cell (Codec.write c) = .ok c :=
  Codec.read_write rfl ((decode?_ofString c.text).mpr c.parse_text)

/-- **Cells have exactly their spellings, and one of them is canonical.**  A text is read as a cell
when it consists of one to sixteen digits that spell a served index, and then as the cell of this
index, which is read without overflow; other texts are refused, and the refusal shows the text, or
the index when there is one.  The text of a cell is read as the cell and has small digits without
leading zeros; two texts are read as one cell when they differ only in letter case and leading
zeros.  The same holds of documents, and a cell has one number. -/
theorem parse_canonicalises :
    (∀ s : String,
      ((∃ c, parse s = .ok c) ↔ IsDigits s ∧ Served (spelled s.toList)) ∧
      (∀ c, parse s = .ok c → c.number.toNat = spelled s.toList) ∧
      (IsDigits s → ∃ n, parseNumber? s = some n ∧ n.toNat = spelled s.toList) ∧
      (¬ IsDigits s → ∃ fault, parse s = .error (.invalidCellFormat fault) ∧ fault.message = s) ∧
      (IsDigits s → ¬ Served (spelled s.toList) → ∃ fault rest,
        parse s = .error (.invalidCellFormat fault) ∧
          fault.message = "0x" ++ Hexadecimal.text (spelled s.toList) ++ rest)) ∧
    (∀ c : Cell, parse c.text = .ok c ∧ c.text.length ≤ 16 ∧ (∀ d ∈ c.text.toList, d ∈ alphabet) ∧
      c.text.toList.head? ≠ some '0') ∧
    (∀ s t c d, parse s = .ok c → parse t = .ok d →
      (c = d ↔ canonical s.toList = canonical t.toList)) ∧
    (∀ c : Cell, Codec.read Cell (Codec.write c) = .ok c) ∧
    (∀ document c, Codec.read Cell document = .ok c ↔
      ∃ s, parse? document = some (.ofString s) ∧ parse s = .ok c) ∧
    (∀ (s : String) c, Codec.read Cell (Codec.write s) = .ok c ↔ parse s = .ok c) ∧
    (∀ n c, ofNumber n = .ok c ↔ c.number = n) := by
  refine ⟨fun s => ⟨exists_parse s, fun c => toNat_number_of_parse, parseNumber?_of_isDigits,
    fun other => ⟨_, parse_of_not_isDigits other, rfl⟩, ?_⟩, ?_, ?_, read_write,
    fun document c => read_eq_ok_iff, fun s c => read_write_string s, fun n c => ofNumber_eq_ok_iff⟩
  · intro digits unserved
    obtain ⟨n, hn, value⟩ := parse_of_isDigits digits
    cases h : parse s with
    | ok c => exact absurd ((exists_parse s).mp ⟨c, h⟩).2 unserved
    | error e =>
      obtain ⟨fault, rest, rfl, message⟩ := ofNumber_eq_error (hn.symm.trans h)
      exact ⟨fault, rest, rfl, value ▸ message⟩
  · exact fun c => ⟨c.parse_text, (isDigits_of_parse c.parse_text).2.1,
      fun d => mem_alphabet_of_mem_text, c.head?_text⟩
  · exact fun s t c d hc hd => eq_iff_canonical hc hd

end Cell

end GeoDispatch
