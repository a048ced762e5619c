import GeoDispatch.Json.Printer
import GeoDispatch.Proofs.Number.Hexadecimal
import Mathlib.Data.List.Chain

/-! # The tokens of a written text are read back

Marks and quoted texts end by themselves.  A word or a number ends where a blank, a quote or a mark
follows, and so it is read back when such a character, or nothing, stands after it
(`Mode.readAll_characters`).  Tokens that are written one after the other without blanks are
therefore read back when every word and every number has a mark after it, and every number is
spelled as a numeral (`Token.IsWritten`, `readAll_flatMap_characters`).
-/

namespace GeoDispatch.Json

namespace Mode

/-! ## What ends a run -/

/-- Whether a character ends a run of letters, digits and signs. -/
def endsRun (c : Char) : Bool := isBlank c || c == '"' || (Token.ofMark? c).isSome

/-- What may follow a run: nothing, or a character that ends it. -/
def Closes (rest : List Char) : Prop := ∀ c ∈ rest.head?, endsRun c = true

theorem endsRun_of_isSome_digit? {c : Char} (h : (Numeral.digit? c).isSome) :
    endsRun c = false := by
  unfold Numeral.digit? at h
  split_ifs at h with decimal
  · obtain ⟨lower, upper⟩ := decimal
    change 48 ≤ c.toNat at lower
    change c.toNat ≤ 57 at upper
    rw [← Char.ofNat_toNat c]
    generalize c.toNat = n at lower upper
    interval_cases n <;> rfl
  · cases h

/-- Up to the rest, no character of a text ends a run. -/
def PlainUpTo (rest cs : List Char) : Prop := ∀ c ∈ cs, endsRun c = false ∨ c ∈ rest

theorem PlainUpTo.refl (cs : List Char) : PlainUpTo cs cs := fun _ => .inr

theorem PlainUpTo.cons {c : Char} {cs rest : List Char} (hc : endsRun c = false)
    (h : PlainUpTo rest cs) : PlainUpTo rest (c :: cs) := by
  intro d hd
  rcases List.mem_cons.mp hd with rfl | hd
  · exact .inl hc
  · exact h d hd

theorem PlainUpTo.trans {cs middle rest : List Char} (h : PlainUpTo middle cs)
    (h' : PlainUpTo rest middle) : PlainUpTo rest cs := fun c hc => (h c hc).elim .inl (h' c)

end Mode

namespace Numeral

open Mode

/-! ## A numeral has no character that ends a run -/

theorem plainUpTo_digits (cs : List Char) : PlainUpTo (digits cs).2 cs := by
  induction cs with
  | nil => exact .refl _
  | cons c cs ih =>
    rw [digits]
    cases hd : digit? c with
    | none => exact .refl _
    | some d => exact .cons (endsRun_of_isSome_digit? (by rw [hd]; rfl)) ih

theorem plainUpTo_readSign (cs : List Char) : PlainUpTo (readSign cs).2 cs := by
  unfold readSign
  split
  · exact .cons rfl (.refl _)
  · exact .refl _

theorem plainUpTo_readWhole? {cs rest : List Char} {ds : List Nat}
    (h : readWhole? cs = some (ds, rest)) : PlainUpTo rest cs := by
  have plain := plainUpTo_digits cs
  unfold readWhole? at h
  split at h
  · cases h
  · cases h
  · rwa [Option.some.inj h] at plain

theorem plainUpTo_readFraction? {cs rest : List Char} {ds : List Nat}
    (h : readFraction? cs = some (ds, rest)) : PlainUpTo rest cs := by
  unfold readFraction? at h
  split at h
  · rename_i cs
    have plain := plainUpTo_digits cs
    split at h
    · cases h
    · rw [Option.some.inj h] at plain
      exact .cons rfl plain
  · cases h
    exact .refl _

theorem plainUpTo_readPower? {negative : Bool} {cs rest : List Char} {e : Option Int}
    (h : readPower? negative cs = some (e, rest)) : PlainUpTo rest cs := by
  have plain := plainUpTo_digits cs
  unfold readPower? at h
  split at h
  · cases h
  · cases h
    rename_i digits_eq
    rwa [digits_eq] at plain

theorem plainUpTo_readExponent? {cs rest : List Char} {e : Option Int}
    (h : readExponent? cs = some (e, rest)) : PlainUpTo rest cs := by
  unfold readExponent? at h
  split at h
  · rename_i c cs
    split at h
    · rename_i letter
      have plain : endsRun c = false := by
        rcases letter with rfl | rfl <;> rfl
      refine .cons plain ?_
      split at h
      · exact .cons rfl (plainUpTo_readPower? h)
      · exact .cons rfl (plainUpTo_readPower? h)
      · exact plainUpTo_readPower? h
    · cases h
      exact .refl _
  · cases h
    exact .refl _

theorem endsRun_of_read? {cs : List Char} {n : Numeral} (h : read? cs = some n) :
    ∀ c ∈ cs, endsRun c = false := by
  unfold read? at h
  obtain ⟨⟨whole, afterWhole⟩, hwhole, h⟩ := Option.bind_eq_some_iff.mp h
  obtain ⟨⟨fraction, afterFraction⟩, hfraction, h⟩ := Option.bind_eq_some_iff.mp h
  obtain ⟨⟨exponent, rest⟩, hexponent, h⟩ := Option.bind_eq_some_iff.mp h
  have plain := (plainUpTo_readSign cs).trans ((plainUpTo_readWhole? hwhole).trans
    ((plainUpTo_readFraction? hfraction).trans (plainUpTo_readExponent? hexponent)))
  cases rest with
  | nil => exact fun c hc => (plain c hc).resolve_right List.not_mem_nil
  | cons c cs => cases h

end Numeral

namespace Mode

/-! ## Reading runs and quoted texts -/

/-- A character that completes no token only changes the mode. -/
theorem readAll_cons {m m' : Mode} {c : Char} (h : m.next c = some ([], m')) (cs : List Char) :
    m.readAll (c :: cs) = m'.readAll cs := by
  simp only [readAll, h, List.nil_append, Option.map_id']

theorem readAll_run {cs : List Char} (plain : ∀ c ∈ cs, endsRun c = false) (run rest : List Char) :
    (Mode.run run).readAll (cs ++ rest) = (Mode.run (cs.reverse ++ run)).readAll rest := by
  induction cs generalizing run with
  | nil => rfl
  | cons c cs ih =>
    have goes_on : (Mode.run run).next c = some ([], .run (c :: run)) := by
      have hc : (isBlank c || c == '"' || (Token.ofMark? c).isSome) = false :=
        plain c List.mem_cons_self
      rw [next, hc, if_neg Bool.false_ne_true]
    rw [List.cons_append, readAll_cons goes_on, ih fun d hd => plain d (List.mem_cons_of_mem _ hd),
      List.reverse_cons, List.append_assoc, List.singleton_append]

/-- A run that is a token is read as one when something ends it. -/
theorem readAll_run_of_closes {run rest : List Char} {t : Token}
    (h : Token.ofRun? run.reverse = some t) (closes : Closes rest) :
    (Mode.run run).readAll rest = (gap.readAll rest).map (t :: ·) := by
  cases rest with
  | nil =>
    simp only [readAll, Mode.finish, h]
    rfl
  | cons c cs =>
    have hc : (isBlank c || c == '"' || (Token.ofMark? c).isSome) = true :=
      closes c rfl
    rw [readAll, next, hc, if_pos rfl, h, readAll, next]
    simp only [Option.map_some, Option.map_map]
    rfl

theorem readAll_gap_run {cs rest : List Char} {t : Token} (nonempty : cs ≠ [])
    (plain : ∀ c ∈ cs, endsRun c = false) (h : Token.ofRun? cs = some t) (closes : Closes rest) :
    gap.readAll (cs ++ rest) = (gap.readAll rest).map (t :: ·) := by
  obtain ⟨c, cs, rfl⟩ := List.exists_cons_of_ne_nil nonempty
  have opens : gap.next c = some ([], .run [c]) := by
    have hc : (isBlank c || c == '"' || (Token.ofMark? c).isSome) = false :=
      plain c List.mem_cons_self
    simp only [Bool.or_eq_false_iff, beq_eq_false_iff_ne, Option.isSome_eq_false_iff,
      Option.isNone_iff_eq_none] at hc
    simp [next, start, hc]
  rw [List.cons_append, readAll_cons opens,
    readAll_run fun d hd => plain d (List.mem_cons_of_mem _ hd)]
  refine readAll_run_of_closes ?_ closes
  rwa [List.reverse_append, List.reverse_reverse]

theorem digit?_hexChar (n : Nat) : Hexadecimal.digit? (hexChar n) = some (n % 16) :=
  Hexadecimal.digit?_digitChar _ (Nat.mod_lt n (by decide))

/-- A character of a quoted text is read as its code. -/
theorem readAll_quotedChar (c : Char) (codes : List Nat) (rest : List Char) :
    (quoted codes).readAll (quotedChar c ++ rest) = (quoted (c.toNat :: codes)).readAll rest := by
  have escapes : (quoted codes).next '\\' = some ([], .escaped codes) := rfl
  unfold quotedChar
  split_ifs with special control
  · have named : (escaped codes).next c = some ([], .quoted (c.toNat :: codes)) := by
      rcases special with rfl | rfl <;> rfl
    rw [List.cons_append, List.singleton_append, readAll_cons escapes, readAll_cons named]
  · -- the code of a control character is the value of four digits, the first two of them zeros
    have hex : (escaped codes).next 'u' = some ([], .hex codes 0 0) := rfl
    have zero : (Mode.hex codes 0 0).next '0' = some ([], .hex codes 1 0) := rfl
    have zero' : (Mode.hex codes 1 0).next '0' = some ([], .hex codes 2 0) := rfl
    have high : (Mode.hex codes 2 0).next (hexChar (c.toNat / 16)) =
        some ([], .hex codes 3 (c.toNat / 16)) := by
      have small : c.toNat / 16 % 16 = c.toNat / 16 := by omega
      rw [next, digit?_hexChar, small]
      simp
    have low : (Mode.hex codes 3 (c.toNat / 16)).next (hexChar c.toNat) =
        some ([], .quoted (c.toNat :: codes)) := by
      rw [next, digit?_hexChar]
      simp only [Option.map_some, if_pos, Nat.div_add_mod]
    simp only [List.cons_append, List.nil_append]
    rw [readAll_cons escapes, readAll_cons hex, readAll_cons zero, readAll_cons zero',
      readAll_cons high, readAll_cons low]
  · have plain : (quoted codes).next c = some ([], .quoted (c.toNat :: codes)) := by
      rw [not_or] at special
      rw [next, if_neg special.1, if_neg special.2, if_neg control]
    rw [List.singleton_append, readAll_cons plain]

theorem readAll_flatMap_quotedChar (cs : List Char) (codes : List Nat) (rest : List Char) :
    (quoted codes).readAll (cs.flatMap quotedChar ++ rest) =
      (quoted ((cs.map Char.toNat).reverse ++ codes)).readAll rest := by
  induction cs generalizing codes with
  | nil => rfl
  | cons c cs ih =>
    rw [List.flatMap_cons, List.append_assoc, readAll_quotedChar, ih, List.map_cons,
      List.reverse_cons, List.append_assoc, List.singleton_append]

end Mode

/-- The codes of characters denote these characters, as none of them is half of a pair. -/
theorem characters?_map_toNat (cs : List Char) : characters? (cs.map Char.toNat) = some cs := by
  induction cs with
  | nil => rfl
  | cons c cs ih =>
    have valid : c.toNat < 0xd800 ∨ 0xdfff < c.toNat ∧ c.toNat < 0x110000 := c.valid
    have high : isHighSurrogate c.toNat = false := by
      simp only [isHighSurrogate, Bool.and_eq_false_iff, decide_eq_false_iff_not]
      omega
    have low : isLowSurrogate c.toNat = false := by
      simp only [isLowSurrogate, Bool.and_eq_false_iff, decide_eq_false_iff_not]
      omega
    rw [List.map_cons, characters?.eq_def]
    simp only [high, low, ih, Char.ofNat_toNat]
    rfl

namespace Mode

theorem readAll_quoted (s : String) (rest : List Char) :
    gap.readAll (Json.quoted (some s) ++ rest) = (gap.readAll rest).map (.text (some s) :: ·) := by
  have opens : gap.next '"' = some ([], .quoted []) := rfl
  have closes (codes : List Nat) : (Mode.quoted codes).next '"' =
      some ([.text ((characters? codes.reverse).map String.ofList)], .gap) := rfl
  have text : (characters? (s.toList.map Char.toNat).reverse.reverse).map String.ofList =
      some s := by
    rw [List.reverse_reverse, characters?_map_toNat, Option.map_some, String.ofList_toList]
  simp only [Json.quoted, List.cons_append, List.append_assoc, List.nil_append]
  rw [readAll_cons opens, readAll_flatMap_quotedChar, List.append_nil, readAll, closes, text]
  rfl

end Mode

namespace Token

/-! ## Reading tokens -/

/-- A mark. -/
def isMark : Token → Bool
  | openArray | closeArray | openObject | closeObject | comma | colon => true
  | _ => false

/-- A token that is written without marks and quotes. -/
def isRun : Token → Bool
  | null | bool _ | number _ => true
  | _ => false

/-- Whether a token can be written: a number is spelled as a numeral, and a text denotes a
string. -/
def IsSound : Token → Prop
  | number s => ∃ n, Numeral.read? s.toList = some n
  | text s => ∃ t, s = some t
  | _ => True

theorem closes_of_isMark {t : Token} (h : t.isMark) (rest : List Char) :
    Mode.Closes (t.characters ++ rest) := by
  have single (c : Char) (ends : Mode.endsRun c = true) : Mode.Closes ([c] ++ rest) := by
    intro d hd
    rwa [← Option.mem_some.mp hd]
  cases t with
  | null | bool | number | text => cases h
  | openArray | closeArray | openObject | closeObject | comma | colon => exact single _ rfl

theorem ofRun?_number {s : String} {n : Numeral} (h : Numeral.read? s.toList = some n) :
    ofRun? s.toList = some (number s) := by
  have apart {word : String} (not_number : Numeral.read? word.toList = none) : s ≠ word := by
    rintro rfl
    rw [h] at not_number
    cases not_number
  rw [ofRun?, String.ofList_toList, if_neg (apart (by decide)), if_neg (apart (by decide)),
    if_neg (apart (by decide)), h]
  rfl

end Token

/-- A token is read back where, after a word or a number, something ends it. -/
theorem Mode.readAll_characters {t : Token} (sound : t.IsSound) {rest : List Char}
    (closes : t.isRun → Mode.Closes rest) :
    Mode.gap.readAll (t.characters ++ rest) = (Mode.gap.readAll rest).map (t :: ·) := by
  have plain {cs : List Char} (h : cs.all fun c => !endsRun c) : ∀ c ∈ cs, endsRun c = false := by
    simpa using h
  cases t with
  | openArray | closeArray | openObject | closeObject | comma | colon => rfl
  | null => exact readAll_gap_run (by decide) (plain (by decide)) (by decide) (closes rfl)
  | bool b =>
    cases b with
    | true => exact readAll_gap_run (by decide) (plain (by decide)) (by decide) (closes rfl)
    | false => exact readAll_gap_run (by decide) (plain (by decide)) (by decide) (closes rfl)
  | number s =>
    obtain ⟨n, hn⟩ := sound
    have nonempty : s.toList ≠ [] := by
      intro empty
      rw [empty] at hn
      cases hn
    exact readAll_gap_run nonempty (Numeral.endsRun_of_read? hn) (Token.ofRun?_number hn)
      (closes rfl)
  | text s =>
    obtain ⟨s, rfl⟩ := sound
    exact readAll_quoted s rest

namespace Token

/-- Whether tokens can be written one after the other: each of them can be written, and after a
word or a number there is a mark. -/
def IsWritten (ts : List Token) : Prop :=
  (∀ t ∈ ts, t.IsSound) ∧ ts.IsChain fun t t' => t.isRun → t'.isMark

theorem closes_flatMap_characters {t : Token} {ts : List Token}
    (chain : (t :: ts).IsChain fun t t' => t.isRun → t'.isMark) (run : t.isRun) :
    Mode.Closes (ts.flatMap characters) := by
  cases ts with
  | nil => exact fun c hc => by cases hc
  | cons t' ts =>
    rw [List.flatMap_cons]
    exact closes_of_isMark ((List.isChain_cons_cons.mp chain).1 run) _

end Token

theorem Mode.readAll_flatMap_characters {ts : List Token} (h : Token.IsWritten ts) :
    Mode.gap.readAll (ts.flatMap Token.characters) = some ts := by
  obtain ⟨sound, chain⟩ := h
  induction ts with
  | nil => rfl
  | cons t ts ih =>
    rw [List.flatMap_cons, readAll_characters (sound t List.mem_cons_self)
      (Token.closes_flatMap_characters chain),
      ih (fun t ht => sound t (List.mem_cons_of_mem _ ht)) chain.tail]
    rfl

end GeoDispatch.Json
