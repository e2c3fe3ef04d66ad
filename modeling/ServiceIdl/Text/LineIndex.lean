import ServiceIdl.Text.Bytes

/-!
# Lines and columns

A `LineIndex` is a text cut into its lines, each with the offset at which it
starts. `LineIndex.lineCol` turns a byte offset into a zero-based line and
column, `LineIndex.locate` a span into the one-based `Location` that
diagnostics and models carry. Only a line feed ends a line, and columns count
characters.
-/

namespace ServiceIdl

/-- A zero-based line and column. -/
structure LineCol where
  line : Nat
  col : Nat
deriving DecidableEq, Repr

/-- A place in a document: one-based lines and columns of both ends, beside
their byte offsets. -/
structure Location where
  startLine : Nat
  startCol : Nat
  startOffset : Nat
  endLine : Nat
  endCol : Nat
  endOffset : Nat
deriving DecidableEq, Repr, Inhabited

/-- A line with the line feed that ends it, if any. -/
structure Line where
  /-- The byte offset of its first character. -/
  start : Nat
  chars : List Char
deriving DecidableEq, Repr

/-- The column of an offset on this line. Inside a character it is the distance
from the start of the line in bytes. -/
def Line.column (line : Line) (offset : Nat) : Nat :=
  match Text.cut? (offset - line.start) line.chars with
  | some (before, _) => before.length
  | none => offset - line.start

/-- The lines of a document, of which there is at least one. -/
structure LineIndex where
  /-- The length of the document in bytes. -/
  size : Nat
  first : Line
  others : List Line
deriving DecidableEq, Repr

namespace LineIndex

/-- Cuts a text into lines. The line being read starts at `start`, holds `read`
(last character first) and reaches up to `offset`. -/
def linesFrom (start offset : Nat) (read : List Char) : List Char → Line × List Line
  | [] => (⟨start, read.reverse⟩, [])
  | c :: rest =>
    if c = '\n' then
      let (next, others) := linesFrom (offset + 1) (offset + 1) [] rest
      (⟨start, (c :: read).reverse⟩, next :: others)
    else linesFrom start (offset + c.utf8Size) (c :: read) rest

/-- The line index of a text. -/
def ofText (text : String) : LineIndex :=
  let (first, others) := linesFrom 0 0 [] text.toList
  ⟨Text.byteLength text.toList, first, others⟩

/-- The number of lines. -/
def lineCount (index : LineIndex) : Nat := index.others.length + 1

/-- The last of the lines `line :: others` that starts at or before the offset,
with its number; `line` has the number `n`. -/
def lineAt (offset n : Nat) (line : Line) : List Line → Nat × Line
  | [] => (n, line)
  | next :: others =>
    if next.start ≤ offset then lineAt offset (n + 1) next others else (n, line)

/-- The line and column of an offset. Past the end it is that of the end. -/
def lineCol (index : LineIndex) (offset : Nat) : LineCol :=
  let offset := min offset index.size
  let (n, line) := lineAt offset 0 index.first index.others
  ⟨n, line.column offset⟩

/-- The location of a span. -/
def locate (index : LineIndex) (span : Span) : Location :=
  let start := index.lineCol span.start
  let stop := index.lineCol span.stop
  { startLine := start.line + 1
    startCol := start.col + 1
    startOffset := span.start
    endLine := stop.line + 1
    endCol := stop.col + 1
    endOffset := span.stop }

end LineIndex

end ServiceIdl
