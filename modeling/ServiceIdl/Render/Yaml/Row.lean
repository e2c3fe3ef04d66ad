/-!
# Lines of YAML

A line ends in a break: a line feed, or one of the separators of lines and of
paragraphs. Each line keeps its break, so that cutting a text into lines loses
nothing.
-/

namespace ServiceIdl.Yaml

/-- Whether a character ends a line. -/
def isBreak (c : Char) : Bool := c = '\n' || c = '\u2028' || c = '\u2029'

/-- A line of YAML: its characters, and the break that ends it. -/
structure Row where
  chars : List Char
  ending : Char
deriving DecidableEq, Repr

namespace Row

/-- A line that ends in a line feed. -/
def line (chars : List Char) : Row := ⟨chars, '\n'⟩

/-- The characters of a line, its break included. -/
def toList (row : Row) : List Char := row.chars ++ [row.ending]

/-- A line with a mark in front. -/
def behind (mark : List Char) (row : Row) : Row := ⟨mark ++ row.chars, row.ending⟩

/-- A line two columns further. One without characters has no indentation. -/
def indent (row : Row) : Row := if row.chars.isEmpty then row else row.behind [' ', ' ']

end Row

/-! ## Cutting a text -/

/-- The lines of a text. A break at the end begins no further one, and a line that lacks a break
gets a line feed. -/
def rows : List Char → List Row
  | [] => []
  | c :: rest =>
    if isBreak c then ⟨[], c⟩ :: rows rest
    else
      match rows rest with
      | [] => [.line [c]]
      | first :: others => first.behind [c] :: others

/-- A line of a text holds no break. -/
theorem isBreak_eq_false_of_mem_rows {text : List Char} {row : Row} (present : row ∈ rows text) :
    ∀ c ∈ row.chars, isBreak c = false := by
  induction text generalizing row with
  | nil => simp [rows] at present
  | cons c rest ih =>
    unfold rows at present
    split at present
    · rcases List.mem_cons.mp present with rfl | later
      · simp
      · exact ih later
    · rename_i visible
      have visible : isBreak c = false := Bool.eq_false_iff.mpr visible
      split at present
      · rw [List.mem_singleton.mp present]
        simpa [Row.line] using visible
      · rename_i first others same
        rw [same] at ih
        rcases List.mem_cons.mp present with rfl | later
        · simpa [Row.behind, visible] using ih List.mem_cons_self
        · exact ih (List.mem_cons_of_mem _ later)

/-- The lines of a text that ends in a break make up the text. -/
theorem flatMap_rows (text : List Char) {last : Char} (ends : isBreak last = true) :
    (rows (text ++ [last])).flatMap Row.toList = text ++ [last] := by
  induction text with
  | nil => simp [rows, ends, Row.toList]
  | cons c rest ih =>
    rw [List.cons_append]
    unfold rows
    split
    · simp [Row.toList, ih]
    · split
      · rename_i empty
        rw [empty] at ih
        simp at ih
      · rename_i first others same
        rw [same] at ih
        simpa [Row.toList, Row.behind] using ih

end ServiceIdl.Yaml
