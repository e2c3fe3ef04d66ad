import ServiceIdl.Text.LineIndex

/-!
# Bounds on lines and columns

A text has no more lines behind the first than it has bytes, and no column lies further
to the right than its offset. So the line and the column of a place in a text are
bounded by the length of the text (`LineIndex.line_le`, `LineIndex.col_le`).
-/

namespace ServiceIdl

open Text (byteLength)

/-- The span ends within a text of this many bytes. -/
def Span.IsWithin (size : Nat) (span : Span) : Prop := span.start ≤ size ∧ span.stop ≤ size

/-- Every character takes a byte at least. -/
theorem Text.length_le_byteLength (text : List Char) : text.length ≤ byteLength text := by
  induction text with
  | nil => exact Nat.le_refl 0
  | cons c rest ih =>
    have positive := c.utf8Size_pos
    rw [List.length_cons, byteLength]
    omega

/-- A column is a distance from the start of its line, in characters or in bytes. -/
theorem Line.column_le (line : Line) (offset : Nat) : line.column offset ≤ offset := by
  unfold Line.column
  split
  · rename_i before after found
    have length := (Text.cut?_eq_some_iff.mp found).2
    have characters := Text.length_le_byteLength before
    omega
  · exact Nat.sub_le offset line.start

namespace LineIndex

/-- Only line feeds begin new lines. -/
theorem length_linesFrom_le (start offset : Nat) (read text : List Char) :
    (linesFrom start offset read text).2.length ≤ text.length := by
  induction text generalizing start offset read with
  | nil => exact Nat.le_refl 0
  | cons c rest ih =>
    unfold linesFrom
    split
    · have others := ih (offset + 1) (offset + 1) []
      simp only [List.length_cons]
      omega
    · have others := ih start (offset + c.utf8Size) (c :: read)
      rw [List.length_cons]
      omega

/-- A text has at most as many line breaks as bytes. -/
theorem length_others_ofText_le (text : String) :
    (ofText text).others.length ≤ byteLength text.toList := by
  have feeds := length_linesFrom_le 0 0 [] text.toList
  have characters := Text.length_le_byteLength text.toList
  change (linesFrom 0 0 [] text.toList).2.length ≤ byteLength text.toList
  omega

/-- A line number is at most the number of the last line. -/
theorem lineAt_le (offset n : Nat) (line : Line) (others : List Line) :
    (lineAt offset n line others).1 ≤ n + others.length := by
  induction others generalizing n line with
  | nil => exact Nat.le_refl n
  | cons next others ih =>
    unfold lineAt
    split
    · have later := ih (n + 1) next
      rw [List.length_cons]
      omega
    · exact Nat.le_add_right n _

/-- A line number is at most the length of the text. -/
theorem line_le (text : String) (offset : Nat) :
    ((ofText text).lineCol offset).line ≤ byteLength text.toList := by
  have lines := length_others_ofText_le text
  have last := lineAt_le (min offset (ofText text).size) 0 (ofText text).first
    (ofText text).others
  change (lineAt _ 0 (ofText text).first (ofText text).others).1 ≤ byteLength text.toList
  omega

theorem col_le (text : String) (offset : Nat) :
    ((ofText text).lineCol offset).col ≤ byteLength text.toList := by
  have within : min offset (ofText text).size ≤ byteLength text.toList := Nat.min_le_right _ _
  exact Nat.le_trans (Line.column_le _ _) within

end LineIndex

end ServiceIdl
