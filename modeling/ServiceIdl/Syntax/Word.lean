import ServiceIdl.Text.Escape
import ServiceIdl.Syntax.View

/-!
# Names and quoted texts

The nodes whose whole text is one word, and what a quoted text and a text block
say between their quotes.
-/

namespace ServiceIdl

/-- A name such as `a_1`. -/
abbrev Identifier := View .identifier

/-- The name of a namespace, such as `a.b`. -/
abbrev NamespaceName := View .namespaceName

/-- An id with its namespace, such as `a.b#C`. -/
abbrev AbsoluteRootShapeId := View .absoluteRootShapeId

/-- An id such as `a.b#C`, `C` or `C$d`. -/
abbrev ShapeId := View .shapeId

/-- A text between quotes. -/
abbrev QuotedText := View .quotedText

/-- A text between triple quotes. -/
abbrev TextBlock := View .textBlock

/-- The text between two pairs of delimiters. -/
def between? (delimiter text : List Char) : Option (List Char) :=
  (Text.dropLead? delimiter text).bind (Text.dropTail? delimiter)

/-- The text between the quotes, with escapes as written. -/
def QuotedText.raw (quoted : QuotedText) : Except Defect String :=
  match between? ['"'] quoted.text.toList with
  | some inner => .ok (String.ofList inner)
  | none => .error (.malformedLiteral .quotedText quoted.text quoted.span)

/-- The text between the quotes, with escapes resolved. -/
def QuotedText.value (quoted : QuotedText) : Except Defect String := do
  let raw ← QuotedText.raw quoted
  return String.ofList (Text.unescape raw.toList)

/-- A text without one line feed at its front, which may follow a carriage
return. -/
def dropNewline : List Char → List Char
  | '\r' :: '\n' :: rest => rest
  | '\n' :: rest => rest
  | text => text

/-- The text of a block between its delimiters, without the end of the opening
line and with escapes resolved. -/
def TextBlock.value (block : TextBlock) : Except Defect String :=
  match between? ['"', '"', '"'] block.text.toList with
  | some inner => .ok (String.ofList (Text.unescape (dropNewline inner)))
  | none => .error (.malformedLiteral .textBlock block.text block.span)

end ServiceIdl
