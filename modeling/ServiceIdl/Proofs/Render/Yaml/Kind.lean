import ServiceIdl.Proofs.Decimal.Finite
import ServiceIdl.Proofs.Render.Comparable
import ServiceIdl.Proofs.Render.Yaml.Text

/-!
# What a first line tells

The first line of a datum tells whether it is absent, a truth value, an integer, a text, a list
or a record (`kindOf`): by the character that it begins with, or by a colon behind a word, or by
being a number or a reserved word. A text is written plain only if it is none of these
(`kindOf_textRows`), and every integer of 64 signed bits is a number
(`kindOf_integer_of_isSigned64`).
-/

namespace ServiceIdl.Yaml

open Datum (isWord)

/-! ## Words -/

theorem exists_cons_of_isWord {name : String} (word : isWord name = true) :
    ∃ c rest, name.toList = c :: rest ∧ ∀ d ∈ c :: rest, d.isAlpha = true := by
  unfold isWord at word
  obtain ⟨nonempty, letters⟩ := Bool.and_eq_true_iff.mp word
  cases form : name.toList with
  | nil => simp [form] at nonempty
  | cons c rest =>
    rw [form] at letters
    exact ⟨c, rest, rfl, List.all_eq_true.mp letters⟩

theorem isBreak_eq_false_of_isAlpha {c : Char} (letter : c.isAlpha = true) : isBreak c = false :=
  isBreak_eq_false_of (·.isAlpha = true) letter (by decide) (by decide) (by decide)

theorem isBreak_eq_false_of_isDigit {c : Char} (digit : c.isDigit = true) : isBreak c = false :=
  isBreak_eq_false_of (·.isDigit = true) digit (by decide) (by decide) (by decide)

/-! ## Kinds of data -/

/-- What a datum is. -/
inductive Kind where
  | null
  | bool
  | int
  | text
  | list
  | record
deriving DecidableEq

/-- The kind a datum has by its constructor. -/
def Kind.ofDatum : Datum → Kind
  | .null => .null
  | .bool _ => .bool
  | .int _ => .int
  | .text _ => .text
  | .list _ => .list
  | .record _ => .record

/-- What a datum is whose first line has these characters, if they begin with no sign. -/
def kindOfWords (chars : List Char) : Kind :=
  if holdsSyntax chars then .record
  else if isNumeric chars then .int
  else if chars = "null".toList then .null
  else if chars = "true".toList ∨ chars = "false".toList then .bool
  else .text

/-- What a datum is whose first line has these characters. -/
def kindOf : List Char → Kind
  | [] => .text
  | c :: rest =>
    if c = '[' ∨ c = '-' ∧ rest.head? = some ' ' then .list
    else if c = '\x7b' then .record
    else if c ∈ textMarks then .text
    else kindOfWords (c :: rest)

/-- Syntax that a text holds is not undone by a character in front. -/
theorem holdsSyntax_cons {text : List Char} (c : Char) (holds : holdsSyntax text = true) :
    holdsSyntax (c :: text) = true := by
  unfold holdsSyntax
  split
  · rename_i same
    cases same
  · rename_i same
    cases same
    simp [holds]
  · rename_i same
    cases same
    simp [holds]
  · rename_i same
    cases same
    exact holds

/-- A colon behind which a word ends is syntax, whatever stands in front. -/
theorem holdsSyntax_append_colon (front : List Char) {rest : List Char}
    (ends : endsWord rest = true) : holdsSyntax (front ++ ':' :: rest) = true := by
  induction front with
  | nil => simp [holdsSyntax, ends]
  | cons c front ih => exact holdsSyntax_cons c ih

/-- Without a colon and a space there is no syntax inside a text. -/
theorem holdsSyntax_eq_false {text : List Char} (noColon : ':' ∉ text) (noSpace : ' ' ∉ text) :
    holdsSyntax text = false := by
  induction text with
  | nil => rfl
  | cons c rest ih =>
    have later := ih (fun inside => noColon (List.mem_cons_of_mem c inside))
      fun inside => noSpace (List.mem_cons_of_mem c inside)
    unfold holdsSyntax
    split
    · rfl
    · rename_i same
      cases same
      exact absurd List.mem_cons_self noColon
    · rename_i same
      cases same
      exact absurd List.mem_cons_self noSpace
    · rename_i same
      cases same
      exact later

/-! ## First lines -/

theorem kindOf_of_mark {c : Char} (mark : c ∈ textMarks) (rest : List Char) :
    kindOf (c :: rest) = .text := by
  have other : c ≠ '[' ∧ c ≠ '-' ∧ c ≠ '\x7b' := by
    have checked : ∀ c ∈ textMarks, c ≠ '[' ∧ c ≠ '-' ∧ c ≠ '\x7b' := by simp [textMarks]
    exact checked c mark
  simp [kindOf, other, mark]

/-- What begins with no indicator, and with no dash that stands alone, is told by its words. -/
theorem kindOf_of_not_mem_indicators {c : Char} (other : c ∉ indicators) {rest : List Char}
    (dash : c = '-' → rest.head? ≠ some ' ') : kindOf (c :: rest) = kindOfWords (c :: rest) := by
  have sign : ∀ d ∈ '[' :: '\x7b' :: textMarks, d ∈ indicators :=
    List.all_iff_forall_prop.mp (by decide)
  have list : c ≠ '[' := by
    rintro rfl
    exact other (sign _ (by decide))
  have record : c ≠ '\x7b' := by
    rintro rfl
    exact other (sign _ (by decide))
  have mark : c ∉ textMarks := fun mark => other (sign c (by simp [mark]))
  have item : ¬ (c = '-' ∧ rest.head? = some ' ') := fun both => dash both.1 both.2
  simp [kindOf, list, record, mark, item]

/-- A plain text is taken for a text and for nothing else. -/
theorem kindOf_of_isPlain {chars : List Char} (plain : isPlain chars = true) :
    kindOf chars = .text := by
  obtain ⟨opens, holds, -, unreserved, numeric⟩ := isPlain_iff.mp plain
  cases chars with
  | nil => cases opens
  | cons c rest =>
    have other : c ∉ indicators := by
      intro sign
      cases opens.symm.trans (opensSyntax_of_mem_indicators sign rest)
    have dash : c = '-' → rest.head? ≠ some ' ' := by
      rintro rfl space
      obtain ⟨tail, rfl⟩ := List.head?_eq_some_iff.mp space
      cases opens
    have words : ∀ word ∈ ["null", "true", "false"], c :: rest ≠ word.toList := by
      intro word listed same
      rw [same, String.ofList_toList] at unreserved
      have checked : ∀ word ∈ ["null", "true", "false"], word ∈ reservedWords := by decide
      exact unreserved (checked word listed)
    rw [kindOf_of_not_mem_indicators other dash, kindOfWords, holds, numeric]
    simp only [Bool.false_eq_true, words "null" (by simp), words "true" (by simp),
      words "false" (by simp), or_self, ↓reduceIte]

/-- What a text is written as begins like a text. -/
theorem kindOf_textRows (text : List Char) :
    ∃ first others, textRows text = first :: others ∧ kindOf first.chars = .text := by
  obtain ⟨first, others, written⟩ := List.exists_cons_of_ne_nil (textRows_ne_nil text)
  refine ⟨first, others, written, ?_⟩
  cases form : (style text).mark? with
  | none =>
    have plain : style text = .plain := Style.mark?_injective form
    unfold textRows at written
    rw [plain] at written
    cases written
    exact kindOf_of_isPlain (isPlain_of_style plain).1
  | some c =>
    have mark := mark?_textRows text
    rw [form, written] at mark
    obtain ⟨begun, listed⟩ := Option.filter_eq_some_iff.mp mark
    obtain ⟨rest, same⟩ := List.head?_eq_some_iff.mp (show first.chars.head? = some c from begun)
    rw [same]
    exact kindOf_of_mark (List.contains_iff_mem.mp listed) rest

/-- An integer begins with no sign but a dash, and the dash has no space behind it. -/
theorem kindOf_integer (n : Int) : kindOf (Decimal.write n) = kindOfWords (Decimal.write n) ∧
    holdsSyntax (Decimal.write n) = false := by
  have noSpace : ' ' ∉ Decimal.write n := Decimal.not_mem_write (by decide) rfl
  constructor
  · cases form : Decimal.write n with
    | nil => rfl
    | cons c rest =>
      rw [form] at noSpace
      refine kindOf_of_not_mem_indicators (fun sign => ?_) fun _ space => ?_
      · have checked : ∀ c ∈ indicators, c ≠ '-' ∧ c.isDigit = false :=
          List.all_iff_forall_prop.mp (by decide)
        obtain ⟨noDash, noDigit⟩ := checked c sign
        have absent : c ∉ Decimal.write n := Decimal.not_mem_write noDash noDigit
        rw [form] at absent
        exact absent List.mem_cons_self
      · exact noSpace (List.mem_cons_of_mem c (List.mem_of_head? space))
  · exact holdsSyntax_eq_false (Decimal.not_mem_write (by decide) rfl) noSpace

/-- An integer of 64 signed bits reads as one. -/
theorem kindOf_integer_of_isSigned64 {n : Int} (fits : Decimal.IsSigned64 n) :
    kindOf (Decimal.write n) = .int := by
  obtain ⟨words, holds⟩ := kindOf_integer n
  have numeric : isNumeric (Decimal.write n) = true := by
    simp [isNumeric, Decimal.isFinite_write fits]
  rw [words, kindOfWords, holds, numeric]
  rfl

/-- A word with a colon behind it begins a record. -/
theorem kindOf_append_colon {name : String} (word : isWord name = true) {tail : List Char}
    (ends : endsWord tail = true) : kindOf (name.toList ++ ':' :: tail) = .record := by
  obtain ⟨c, rest, form, letters⟩ := exists_cons_of_isWord word
  have letter := letters c List.mem_cons_self
  have holds := holdsSyntax_append_colon name.toList ends
  have other : c ∉ indicators := by
    intro sign
    have checked : ∀ c ∈ indicators, c.isAlpha = false :=
      List.all_iff_forall_prop.mp (by decide)
    cases letter.symm.trans (checked c sign)
  have dash : c = '-' → (rest ++ ':' :: tail).head? ≠ some ' ' := by
    rintro rfl
    cases letter
  rw [form, List.cons_append] at holds ⊢
  rw [kindOf_of_not_mem_indicators other dash, kindOfWords, holds]
  rfl

/-- A larger integer could also be a text. -/
theorem kindOf_integer_cases (n : Int) :
    kindOf (Decimal.write n) = .int ∨ kindOf (Decimal.write n) = .text := by
  obtain ⟨words, holds⟩ := kindOf_integer n
  have spelled : ∀ word ∈ ["null", "true", "false"], Decimal.write n ≠ word.toList := by
    intro word listed same
    have letters : ∀ word ∈ ["null", "true", "false"], 'e' ∈ word.toList ∨ 'l' ∈ word.toList := by
      decide
    have letter := letters word listed
    rw [← same] at letter
    rcases letter with inside | inside
    · exact Decimal.not_mem_write (by decide) rfl inside
    · exact Decimal.not_mem_write (by decide) rfl inside
  rw [words, kindOfWords, holds]
  simp only [Bool.false_eq_true, spelled "null" (by simp), spelled "true" (by simp),
    spelled "false" (by simp), or_self, ↓reduceIte]
  split
  · exact .inl rfl
  · exact .inr rfl

end ServiceIdl.Yaml
