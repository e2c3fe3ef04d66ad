import ServiceIdl.Proofs.Text.Escape
import ServiceIdl.Text.Blank

/-!
# Words

The forms of the words that a document is made of, said without the grammar: identifiers and the
ids put together of them, quoted texts, and text blocks. Numbers have theirs in `Decimal.IsLiteral`.

A quote inside a quoted text is escaped if there is an odd number of backslashes right in front of
it (`Escapes`); this says the same as reading the text from the left in pieces, and needs no
reader (`isQuoted_of_pieces`).
-/

namespace ServiceIdl.Text

/-! ## Identifiers and ids -/

/-- The characters of identifiers: ASCII letters, digits and underscores. -/
def isWordChar (c : Char) : Bool := c.isAlphanum || c = '_'

/-- No identifier goes on here. -/
def EndsWord (behind : List Char) : Prop := ∀ c, behind.head? = some c → isWordChar c = false

/-- Underscores, a letter, and then letters, digits and underscores. -/
def IsIdentifier (word : List Char) : Prop :=
  ∃ marks letter others, word = marks ++ letter :: others ∧ (∀ c ∈ marks, c = '_') ∧
    letter.isAlpha = true ∧ ∀ c ∈ others, isWordChar c = true

/-- Identifiers with points between them. -/
inductive IsNamespace : List Char → Prop
  | single {word : List Char} : IsIdentifier word → IsNamespace word
  | dotted {word others : List Char} :
    IsIdentifier word → IsNamespace others → IsNamespace (word ++ '.' :: others)

/-- A namespace and an identifier with a number sign between them. -/
def IsAbsoluteId (id : List Char) : Prop :=
  ∃ space name, id = space ++ '#' :: name ∧ IsNamespace space ∧ IsIdentifier name

/-- An identifier, possibly in a namespace, and possibly with the identifier of a member. -/
def IsShapeId (id : List Char) : Prop :=
  ∃ root suffix, id = root ++ suffix ∧ (IsIdentifier root ∨ IsAbsoluteId root) ∧
    (suffix = [] ∨ ∃ member, suffix = '$' :: member ∧ IsIdentifier member)

/-! ## Characters of ids -/

/-- The marks between the parts of an id. -/
def idMarks : List Char := ['.', '#', '$']

section Characters

variable {word : List Char} {c : Char}

theorem IsIdentifier.isWordChar (is : IsIdentifier word) (member : c ∈ word) :
    isWordChar c = true := by
  obtain ⟨marks, letter, others, rfl, underscores, alpha, each⟩ := is
  rcases List.mem_append.mp member with front | behind
  · rw [underscores c front]
    decide
  · rcases List.mem_cons.mp behind with rfl | later
    · simp [Text.isWordChar, Char.isAlphanum, alpha]
    · exact each c later

/-- A namespace has characters of words, and marks between them. -/
theorem IsNamespace.mem_cases (is : IsNamespace word) (member : c ∈ word) :
    Text.isWordChar c = true ∨ c ∈ idMarks := by
  induction is with
  | single word => exact .inl (word.isWordChar member)
  | dotted word _ ih =>
    rcases List.mem_append.mp member with front | behind
    · exact .inl (word.isWordChar front)
    · rcases List.mem_cons.mp behind with rfl | later
      · exact .inr (by decide)
      · exact ih later

theorem IsShapeId.mem_cases (is : IsShapeId word) (member : c ∈ word) :
    Text.isWordChar c = true ∨ c ∈ idMarks := by
  obtain ⟨root, suffix, rfl, rooted, suffixed⟩ := is
  rcases List.mem_append.mp member with front | behind
  · rcases rooted with word | ⟨space, name, rfl, spaced, named⟩
    · exact .inl (word.isWordChar front)
    · rcases List.mem_append.mp front with inSpace | inName
      · exact spaced.mem_cases inSpace
      · rcases List.mem_cons.mp inName with rfl | later
        · exact .inr (by decide)
        · exact .inl (named.isWordChar later)
  · rcases suffixed with rfl | ⟨name, rfl, named⟩
    · cases behind
    · rcases List.mem_cons.mp behind with rfl | later
      · exact .inr (by decide)
      · exact .inl (named.isWordChar later)

/-- A character of a range has a code point of the range. -/
theorem toNat_bounds {low high : UInt32} (within : low ≤ c.val ∧ c.val ≤ high) :
    low.toNat ≤ c.toNat ∧ c.toNat ≤ high.toNat :=
  within.imp UInt32.le_iff_toNat_le.mp UInt32.le_iff_toNat_le.mp

/-- All characters of words lie between the digit zero and the letter z. -/
theorem isWordChar_bounds (word : isWordChar c = true) : 48 ≤ c.toNat ∧ c.toNat ≤ 122 := by
  rcases Bool.or_eq_true_iff.mp word with alphanum | underscore
  · rcases Bool.or_eq_true_iff.mp alphanum with alpha | digit
    · rcases Bool.or_eq_true_iff.mp alpha with upper | lower
      · have bounds : 65 ≤ c.toNat ∧ c.toNat ≤ 90 := toNat_bounds (of_decide_eq_true upper)
        omega
      · have both := (Bool.and_eq_true_iff.mp lower).imp of_decide_eq_true of_decide_eq_true
        have bounds : 97 ≤ c.toNat ∧ c.toNat ≤ 122 := toNat_bounds both
        omega
    · have both := (Bool.and_eq_true_iff.mp digit).imp of_decide_eq_true of_decide_eq_true
      have bounds : 48 ≤ c.toNat ∧ c.toNat ≤ 57 := toNat_bounds both
      omega
  · rw [of_decide_eq_true underscore]
    decide

/-- Neither white space nor a comma is a character of identifiers. -/
theorem isBlank_of_isWordChar (word : isWordChar c = true) : isBlank c = false ∧ c ≠ ',' := by
  have visible := isWordChar_bounds word
  constructor
  · have apart : ∀ range ∈ blankRanges, range.2 < 48 ∨ 122 < range.1 := by decide
    rw [isBlank, List.any_eq_false]
    intro range member within
    simp only [Bool.and_eq_true, decide_eq_true_eq] at within
    have outside := apart range member
    omega
  · rintro rfl
    exact absurd visible (by decide)

/-- An id has no blanks inside. -/
theorem IsShapeId.isBlank_of_mem (is : IsShapeId word) (member : c ∈ word) :
    isBlank c = false ∧ c ≠ ',' := by
  rcases is.mem_cases member with inWord | mark
  · exact isBlank_of_isWordChar inWord
  · have checked : (idMarks.all fun c => !isBlank c && c != ',') = true := by decide
    simpa using List.all_eq_true.mp checked c mark

end Characters

/-! ## Quoted texts -/

/-- The number of backslashes at the end of the text. -/
def trailingMarks (front : List Char) : Nat := (front.reverse.takeWhile (· = '\\')).length

/-- The last backslash of the text escapes what follows: it is not escaped itself. -/
def Escapes (front : List Char) : Prop := trailingMarks front % 2 = 1

/-- Between its quotes, the text has no quote that is not escaped, and no backslash at its end that
escapes nothing. -/
structure IsQuoted (inner : List Char) : Prop where
  escaped : ∀ front behind, inner = front ++ '"' :: behind → Escapes front
  ended : ¬ Escapes inner

/-- A text between quotes. -/
def IsQuotedText (text : List Char) : Prop :=
  ∃ inner, text = '"' :: (inner ++ ['"']) ∧ IsQuoted inner

section Quoted

variable {front : List Char} {c : Char}

/-- One backslash more changes whether the next character is escaped. -/
theorem escapes_concat_mark : Escapes (front ++ ['\\']) ↔ ¬ Escapes front := by
  unfold Escapes trailingMarks
  rw [List.reverse_append]
  simp only [List.reverse_singleton, List.singleton_append, List.takeWhile_cons, decide_true,
    ↓reduceIte, List.length_cons]
  omega

/-- Behind a character that is no backslash nothing is escaped. -/
theorem not_escapes_concat (plain : c ≠ '\\') : ¬ Escapes (front ++ [c]) := by
  unfold Escapes trailingMarks
  rw [List.reverse_append]
  simp [plain]

/-- Pieces behind a text that escapes nothing have escaped quotes only, and escape nothing behind
them. -/
theorem escapes_of_pieces {pieces : List (List Char)} (plain : ¬ Escapes front)
    (each : ∀ piece ∈ pieces, Json.IsPiece piece) :
    (∀ a b, pieces.flatten = a ++ '"' :: b → Escapes (front ++ a)) ∧
      ¬ Escapes (front ++ pieces.flatten) := by
  induction pieces generalizing front with
  | nil => simp [plain]
  | cons piece pieces ih =>
    obtain ⟨first, others⟩ := List.forall_mem_cons.mp each
    rcases first with ⟨c, rfl⟩ | ⟨c, noQuote, noMark, rfl⟩
    · have marked : Escapes (front ++ ['\\']) := escapes_concat_mark.mpr plain
      have behind : ¬ Escapes (front ++ ['\\'] ++ [c]) := by
        by_cases mark : c = '\\'
        · rw [mark, escapes_concat_mark]
          exact not_not_intro marked
        · exact not_escapes_concat mark
      obtain ⟨escaped, ended⟩ := ih behind others
      simp only [List.append_assoc, List.cons_append, List.nil_append] at escaped ended
      refine ⟨fun a b split => ?_, by simpa using ended⟩
      match a with
      | [] => cases split
      | [_] =>
        cases split
        exact marked
      | _ :: _ :: a =>
        simp only [List.flatten_cons, List.cons_append, List.nil_append, List.cons.injEq] at split
        obtain ⟨rfl, rfl, split⟩ := split
        exact escaped a b split
    · obtain ⟨escaped, ended⟩ := ih (not_escapes_concat noMark) others
      simp only [List.append_assoc, List.cons_append, List.nil_append] at escaped ended
      refine ⟨fun a b split => ?_, by simpa using ended⟩
      match a with
      | [] =>
        cases split
        exact absurd rfl noQuote
      | _ :: a =>
        simp only [List.flatten_cons, List.cons_append, List.nil_append, List.cons.injEq] at split
        obtain ⟨rfl, split⟩ := split
        exact escaped a b split

/-- Pieces in a row make the inside of a quoted text. -/
theorem isQuoted_of_pieces {pieces : List (List Char)}
    (each : ∀ piece ∈ pieces, Json.IsPiece piece) : IsQuoted pieces.flatten := by
  have start : ¬ Escapes [] := by simp [Escapes, trailingMarks]
  obtain ⟨escaped, ended⟩ := escapes_of_pieces start each
  exact ⟨fun a b split => by simpa using escaped a b split, by simpa using ended⟩

end Quoted

/-! ## Text blocks -/

/-- The delimiter of text blocks. -/
def tripleQuote : List Char := ['"', '"', '"']

/-- A text between two delimiters, of which the second is the first one behind the other. -/
def IsTextBlock (text : List Char) : Prop :=
  ∃ inner, text = tripleQuote ++ (inner ++ tripleQuote) ∧
    ∀ front behind, inner ++ tripleQuote = front ++ (tripleQuote ++ behind) → behind = []

end ServiceIdl.Text
