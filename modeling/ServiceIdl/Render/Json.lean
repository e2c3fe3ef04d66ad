import ServiceIdl.Decimal.Integer
import ServiceIdl.Render.Datum

/-!
# JSON

Data as JSON text, on one line or indented by two spaces a level. In a text only
the quote, the backslash and the characters below the space are escaped; all
others stand for themselves.
-/

namespace ServiceIdl.Json

/-- How the values of a list or a record are set apart. -/
inductive Layout where
  /-- Everything on one line, without spaces. -/
  | compact
  /-- A line for each element, and a space behind each colon. -/
  | indented
deriving DecidableEq, Repr

namespace Layout

/-- What stands before an element, or the closing bracket, at a depth. -/
def lineBreak : Layout → Nat → List Char
  | .compact, _ => []
  | .indented, depth => '\n' :: List.replicate (2 * depth) ' '

/-- What stands between a field name and its value. -/
def colon : Layout → List Char
  | .compact => [':']
  | .indented => [':', ' ']

end Layout

/-- A character inside quotes. -/
def escape (c : Char) : List Char :=
  if c = '\x22' then ['\\', '\x22']
  else if c = '\\' then ['\\', '\\']
  else if ' ' ≤ c then [c]
  else if c = '\x08' then ['\\', 'b']
  else if c = '\t' then ['\\', 't']
  else if c = '\n' then ['\\', 'n']
  else if c = '\x0c' then ['\\', 'f']
  else if c = '\r' then ['\\', 'r']
  else '\\' :: 'u' :: Text.hex 4 c.toNat

/-- A text in quotes. -/
def quote (text : String) : List Char := '\x22' :: text.toList.flatMap escape ++ ['\x22']

mutual

/-- The JSON of a datum whose first line is indented to a depth. -/
def write (layout : Layout) (depth : Nat) : Datum → List Char
  | .null => ['n', 'u', 'l', 'l']
  | .bool true => ['t', 'r', 'u', 'e']
  | .bool false => ['f', 'a', 'l', 's', 'e']
  | .int n => Decimal.write n
  | .text s => quote s
  | .list [] => ['[', ']']
  | .list (item :: items) =>
    '[' :: layout.lineBreak (depth + 1) ++ write layout (depth + 1) item
      ++ writeItems layout (depth + 1) items ++ layout.lineBreak depth ++ [']']
  | .record [] => ['\x7b', '\x7d']
  | .record ((name, value) :: fields) =>
    '\x7b' :: layout.lineBreak (depth + 1) ++ quote name ++ layout.colon
      ++ write layout (depth + 1) value ++ writeFields layout (depth + 1) fields
      ++ layout.lineBreak depth ++ ['\x7d']

/-- The elements of a list behind the first. -/
def writeItems (layout : Layout) (depth : Nat) : List Datum → List Char
  | [] => []
  | item :: items =>
    ',' :: layout.lineBreak depth ++ write layout depth item ++ writeItems layout depth items

/-- The fields of a record behind the first. -/
def writeFields (layout : Layout) (depth : Nat) : List (String × Datum) → List Char
  | [] => []
  | (name, value) :: fields =>
    ',' :: layout.lineBreak depth ++ quote name ++ layout.colon ++ write layout depth value
      ++ writeFields layout depth fields

end

/-- The JSON text of a datum. -/
def text (layout : Layout) (d : Datum) : String := String.ofList (write layout 0 d)

end ServiceIdl.Json
