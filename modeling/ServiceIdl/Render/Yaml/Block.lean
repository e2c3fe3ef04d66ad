import ServiceIdl.Decimal.Integer
import ServiceIdl.Render.Datum
import ServiceIdl.Render.Yaml.Scalar

/-!
# YAML

Data as YAML text in block style. A field has its name in front of its value; the
lines of a list stand below it, at the same column, those of a record and the
further lines of a text two columns further. An element of a list has a dash in
front, and its lines stand two columns behind that. A line without text has no
indentation.
-/

namespace ServiceIdl.Yaml

/-- The lines of a value behind a mark, those below the first two columns further. -/
def hang (mark : List Char) : List Row → List Row
  | [] => []
  | first :: others => first.behind mark :: others.map Row.indent

/-- The lines of a field, given those of its value. -/
def fieldRows (name : String) (value : Datum) (below : List Row) : List Row :=
  let label := name.toList ++ [':']
  match value with
  | .list (_ :: _) => .line label :: below
  | .record (_ :: _) => .line label :: below.map Row.indent
  | _ => hang (label ++ [' ']) below

mutual

/-- The lines of a datum. -/
def write : Datum → List Row
  | .null => [.line ['n', 'u', 'l', 'l']]
  | .bool true => [.line ['t', 'r', 'u', 'e']]
  | .bool false => [.line ['f', 'a', 'l', 's', 'e']]
  | .int n => [.line (Decimal.write n)]
  | .text s => textRows s.toList
  | .list [] => [.line ['[', ']']]
  | .list (item :: items) => hang ['-', ' '] (write item) ++ writeItems items
  | .record [] => [.line ['\x7b', '\x7d']]
  | .record ((name, value) :: fields) =>
    fieldRows name value (write value) ++ writeFields fields

/-- The lines of elements of a list. -/
def writeItems : List Datum → List Row
  | [] => []
  | item :: items => hang ['-', ' '] (write item) ++ writeItems items

/-- The lines of fields of a record. -/
def writeFields : List (String × Datum) → List Row
  | [] => []
  | (name, value) :: fields => fieldRows name value (write value) ++ writeFields fields

end

/-- The YAML text of a datum: its lines, each with its break. -/
def text (d : Datum) : String := String.ofList ((write d).flatMap Row.toList)

end ServiceIdl.Yaml
