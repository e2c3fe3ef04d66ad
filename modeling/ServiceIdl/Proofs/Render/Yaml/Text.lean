import Mathlib.Data.Bool.AllAny
import Mathlib.Data.List.Basic
import ServiceIdl.Proofs.Render.Yaml.Quotes
import ServiceIdl.Proofs.Render.Yaml.Row

/-!
# Texts are told apart

The first character of the lines of a text tells its style, since a text that is written plain
does not begin with a quote or with the bar of a literal block (`mark?_textRows`). In each style
the lines determine the text. A literal block needs its header for that: lines do not tell
whether the last break belongs to the text, but the header does (`eq_of_literalBlock_eq`).
-/

namespace ServiceIdl.Yaml

open Function (Injective)

/-! ## Plain texts -/

/-- A text is written plain only if it reads back as itself and is one line. -/
theorem isPlain_of_style {text : List Char} (plain : style text = .plain) :
    isPlain text = true ∧ ∀ c ∈ text, isBreak c = false := by
  unfold style at plain
  split at plain
  · cases plain
  split at plain
  · split at plain <;> cases plain
  split at plain
  · split at plain <;> cases plain
  split at plain
  · rename_i unbroken isPlain
    refine ⟨isPlain, fun c inside => ?_⟩
    simp only [List.any_eq_true, not_exists, not_and, Bool.not_eq_true] at unbroken
    exact unbroken c inside
  · cases plain

/-- A plain text begins and holds no syntax, and it is none of the words and numbers. -/
theorem isPlain_iff {text : List Char} :
    isPlain text = true ↔ opensSyntax text = false ∧ holdsSyntax text = false ∧
      text.getLast? ≠ some ' ' ∧ String.ofList text ∉ reservedWords ∧ isNumeric text = false := by
  simp [isPlain, and_assoc]

/-- The characters that begin syntax do so whatever follows. -/
theorem opensSyntax_of_mem_indicators {c : Char} (member : c ∈ indicators) (rest : List Char) :
    opensSyntax (c :: rest) = true := by
  have others : ∀ c ∈ indicators, c ≠ '-' ∧ c ≠ '?' ∧ c ≠ '.' :=
    List.all_iff_forall_prop.mp (by decide)
  obtain ⟨dash, mark, point⟩ := others c member
  rw [opensSyntax]
  · simp [member]
  · simpa using dash
  · simpa using mark
  · simpa using point

/-! ## First characters -/

/-- The first character of the first line. -/
def mark? (rows : List Row) : Option Char := rows.head?.bind fun row => row.chars.head?

/-- The character that a text in this style begins with, if it is always the same. -/
def Style.mark? : Style → Option Char
  | .plain => none
  | .singleQuoted => some '\x27'
  | .doubleQuoted => some '\x22'
  | .literal => some '|'

/-- The characters that begin a text that is not written plain. -/
def textMarks : List Char := ['\x27', '\x22', '|']

theorem Style.mark?_injective : Injective Style.mark? := by
  intro s t same
  cases s <;> cases t <;> first | rfl | cases same

/-- The first character of a text begins its first line, if it can be seen. -/
theorem mark?_rows_cons {c : Char} (visible : isBreak c = false) (rest : List Char) :
    Yaml.mark? (rows (c :: rest)) = some c := by
  rw [rows, if_neg (by simp [visible])]
  split <;> rfl

/-- The lines of a text begin with the mark of its style, or with no mark. -/
theorem mark?_textRows (text : List Char) :
    (mark? (textRows text)).filter (textMarks.contains ·) = (style text).mark? := by
  unfold textRows
  cases form : style text with
  | singleQuoted =>
    have first : mark? (rows (singleQuote text)) = some '\x27' := mark?_rows_cons rfl _
    rw [first]
    rfl
  | doubleQuoted => rfl
  | literal => rfl
  | plain =>
    obtain ⟨opens, -⟩ := isPlain_iff.mp (isPlain_of_style form).1
    have first : mark? [.line text] = text.head? := rfl
    rw [first]
    refine Option.filter_eq_none_iff.mpr fun c head mark => ?_
    obtain ⟨rest, rfl⟩ := List.head?_eq_some_iff.mp head
    have indicator : c ∈ indicators := by
      have checked : ∀ c ∈ textMarks, c ∈ indicators := List.all_iff_forall_prop.mp (by decide)
      exact checked c (List.contains_iff_mem.mp mark)
    cases opens.symm.trans (opensSyntax_of_mem_indicators indicator rest)

theorem style_eq_of_textRows_eq {text other : List Char} (same : textRows text = textRows other) :
    style text = style other :=
  Style.mark?_injective (by rw [← mark?_textRows, same, mark?_textRows])

/-! ## Literal blocks -/

/-- A text without a break at its end is marked as such. -/
theorem endMark_concat (front : List Char) (last : Char) :
    endMark (front ++ [last]) = ['-'] ↔ isBreak last = false := by
  unfold endMark
  rw [List.reverse_append, List.reverse_singleton, List.singleton_append]
  cases front.reverse with
  | nil => cases ended : isBreak last <;> simp [ended]
  | cons before _ =>
    cases ended : isBreak last <;> cases endedBefore : isBreak before <;>
      simp [ended, endedBefore]

/-- The lines of a text and the mark for its end determine the text. -/
theorem eq_of_rows_eq {text other : List Char} (same : rows text = rows other)
    (ends : endMark text = endMark other) : text = other := by
  rcases List.eq_nil_or_concat' text with rfl | ⟨front, last, rfl⟩
  · by_contra different
    exact rows_ne_nil (Ne.symm different) same.symm
  rcases List.eq_nil_or_concat' other with rfl | ⟨front', last', rfl⟩
  · exact absurd same (rows_ne_nil (by simp))
  have lines := congrArg (List.flatMap Row.toList) same
  have visible := endMark_concat front last
  rw [ends, endMark_concat] at visible
  cases ended : isBreak last with
  | true =>
    have ended' : isBreak last' = true := by simpa [ended] using visible
    rwa [flatMap_rows front ended, flatMap_rows front' ended'] at lines
  | false =>
    rw [flatMap_rows_concat front ended, flatMap_rows_concat front' (visible.mpr ended)] at lines
    exact List.append_cancel_right lines

theorem indentationMark_cases (text : List Char) :
    indentationMark text = [] ∨ indentationMark text = ['2'] := by
  unfold indentationMark
  split
  · exact .inr rfl
  · exact .inl rfl

theorem endMark_cases (text : List Char) :
    endMark text = [] ∨ endMark text = ['-'] ∨ endMark text = ['+'] := by
  unfold endMark
  split <;> (try split) <;> (try split) <;> simp

/-- The mark for the end is what a header has of dashes and plus signs. -/
theorem filter_header (text : List Char) :
    ('|' :: indentationMark text ++ endMark text).filter (['-', '+'].contains ·) =
      endMark text := by
  rcases indentationMark_cases text with front | front <;>
    rcases endMark_cases text with ends | ends | ends <;>
    (rw [front, ends]; rfl)

theorem isBreak_header (text : List Char) :
    ∀ c ∈ '|' :: indentationMark text ++ endMark text, isBreak c = false := by
  rcases indentationMark_cases text with front | front <;>
    rcases endMark_cases text with ends | ends | ends <;>
    simp [front, ends, isBreak]

/-- Literal blocks lose nothing, blank lines at either end included. -/
theorem eq_of_literalBlock_eq {text other : List Char}
    (same : literalBlock text = literalBlock other) : text = other := by
  obtain ⟨header, lines⟩ := List.cons.inj same
  have marks := congrArg (List.filter (['-', '+'].contains ·)) (congrArg Row.chars header)
  refine eq_of_rows_eq lines ?_
  rw [← filter_header text, ← filter_header other]
  exact marks

/-! ## Texts -/

theorem flatMap_rows_singleQuote (text : List Char) :
    (rows (singleQuote text)).flatMap Row.toList = singleQuote text ++ ['\n'] :=
  flatMap_rows_concat _ rfl

/-- The lines of a text determine the text. -/
theorem textRows_injective : Injective textRows := by
  intro text other same
  have styles := style_eq_of_textRows_eq same
  unfold textRows at same
  rw [← styles] at same
  cases form : style text with
  | plain =>
    rw [form] at same
    exact congrArg Row.chars (List.cons.inj same).1
  | singleQuoted =>
    rw [form] at same
    have lines := congrArg (List.flatMap Row.toList) same
    rw [flatMap_rows_singleQuote, flatMap_rows_singleQuote] at lines
    exact singleQuote_injective (List.append_cancel_right lines)
  | doubleQuoted =>
    rw [form] at same
    exact doubleQuote_injective (congrArg Row.chars (List.cons.inj same).1)
  | literal =>
    rw [form] at same
    exact eq_of_literalBlock_eq same

/-- Every text has a line, the empty one included. -/
theorem textRows_ne_nil (text : List Char) : textRows text ≠ [] := by
  unfold textRows
  split
  · exact List.cons_ne_nil _ _
  · exact rows_ne_nil (List.cons_ne_nil _ _)
  · exact List.cons_ne_nil _ _
  · exact List.cons_ne_nil _ _

theorem isWhole_of_mem_textRows (text : List Char) : ∀ row ∈ textRows text, row.IsWhole := by
  unfold textRows
  cases form : style text with
  | plain => exact List.forall_mem_singleton.mpr (Row.isWhole_line (isPlain_of_style form).2)
  | singleQuoted => exact isWhole_of_mem_rows
  | doubleQuoted =>
    exact List.forall_mem_singleton.mpr (Row.isWhole_line (isBreak_doubleQuote text))
  | literal =>
    exact List.forall_mem_cons.mpr ⟨Row.isWhole_line (isBreak_header text), isWhole_of_mem_rows⟩

end ServiceIdl.Yaml
