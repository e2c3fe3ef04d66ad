import ServiceIdl.Render.Yaml.Style

/-!
# YAML texts

The lines that a text takes in its style. A literal block has a header and then
the lines of the text; single quotes leave separators of lines as they are, and a
line ends there too. The lines are without the indentation that their place adds.
-/

namespace ServiceIdl.Yaml

/-- A text in single quotes, where a quote is written twice. -/
def singleQuote (text : List Char) : List Char :=
  '\x27' :: text.flatMap (fun c => if c = '\x27' then ['\x27', '\x27'] else [c]) ++ ['\x27']

/-- The letter that stands for a character behind a backslash. -/
def letterOf? : Char → Option Char
  | '\x00' => some '0'
  | '\x07' => some 'a'
  | '\x08' => some 'b'
  | '\t' => some 't'
  | '\n' => some 'n'
  | '\x0b' => some 'v'
  | '\x0c' => some 'f'
  | '\r' => some 'r'
  | '\x1b' => some 'e'
  | '\x22' => some '\x22'
  | '\\' => some '\\'
  | '\u0085' => some 'N'
  | '\u2028' => some 'L'
  | '\u2029' => some 'P'
  | _ => none

/-- The last `width` hexadecimal digits of a number, in capitals. -/
def capitalHex (width n : Nat) : List Char := (Text.hex width n).map Char.toUpper

/-- A character inside double quotes. -/
def escape (c : Char) : List Char :=
  match letterOf? c with
  | some letter => ['\\', letter]
  | none =>
    if isPrintable c then [c]
    else if c.toNat ≤ 0xFF then '\\' :: 'x' :: capitalHex 2 c.toNat
    else if c.toNat ≤ 0xFFFF then '\\' :: 'u' :: capitalHex 4 c.toNat
    else '\\' :: 'U' :: capitalHex 8 c.toNat

/-- A text in double quotes. -/
def doubleQuote (text : List Char) : List Char := '\x22' :: text.flatMap escape ++ ['\x22']

/-! ## Literal blocks -/

/-- The mark for text that begins with what could be taken for indentation. -/
def indentationMark (text : List Char) : List Char :=
  if text.head?.any fun c => c = ' ' || isBreak c then ['2'] else []

/-- The mark for the breaks at the end of a text: exactly one behind other text has none. -/
def endMark (text : List Char) : List Char :=
  match text.reverse with
  | [] => ['-']
  | [c] => if isBreak c then ['+'] else ['-']
  | c :: before :: _ => if !isBreak c then ['-'] else if isBreak before then ['+'] else []

/-- The header of a literal block and the lines of its text. -/
def literalBlock (text : List Char) : List Row :=
  .line ('|' :: indentationMark text ++ endMark text) :: rows text

/-- The lines that a text takes. -/
def textRows (text : List Char) : List Row :=
  match style text with
  | .plain => [.line text]
  | .singleQuoted => rows (singleQuote text)
  | .doubleQuoted => [.line (doubleQuote text)]
  | .literal => literalBlock text

end ServiceIdl.Yaml
