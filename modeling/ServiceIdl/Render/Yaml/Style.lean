import ServiceIdl.Decimal.Real
import ServiceIdl.Render.Yaml.Row
import ServiceIdl.Text.Bytes

/-!
# Styles of YAML texts

A text is written plain wherever that reads back as the same text. Otherwise it
goes into single quotes, or into double quotes if it has characters that cannot be
shown or blanks that a quoted line would lose. A text with line feeds becomes a
literal block where that keeps its blanks.
-/

namespace ServiceIdl.Yaml

/-- How a text is written. -/
inductive Style where
  | plain
  | singleQuoted
  | doubleQuoted
  | literal
deriving DecidableEq, Repr

/-- Whether a character can be shown as it is. -/
def isPrintable (c : Char) : Bool :=
  c = '\n' || (' ' ≤ c && c ≤ '~')
    || ('\u00a0' ≤ c && c ≠ '\ufeff' && c ≠ '\ufffe' && c ≠ '\uffff')

/-! ## Texts that read as something else -/

/-- The words for the absent value and the truth values. -/
def reservedWords : List String :=
  ["~", "null", "Null", "NULL", "true", "True", "TRUE", "false", "False", "FALSE"]

/-- The words for infinity and for the number that is not one. -/
def floatWords : List String :=
  [".inf", ".Inf", ".INF", "+.inf", "+.Inf", "+.INF", "-.inf", "-.Inf", "-.INF", ".nan", ".NaN",
   ".NAN"]

/-- The radix that the letter behind a leading zero stands for. -/
def radixOfMark? : Char → Option Nat
  | 'x' => some 16
  | 'o' => some 8
  | 'b' => some 2
  | _ => none

/-- The value of an integer with a mark for its radix. -/
def markedInteger? : List Char → Option Nat
  | '0' :: mark :: digits => (radixOfMark? mark).bind fun radix => Text.number? radix digits
  | _ => none

/-- Whether a text reads as an integer with a mark, which has at most 128 bits. -/
def isMarkedInteger : List Char → Bool
  | '-' :: text => (markedInteger? text).any (· ≤ 0x80000000000000000000000000000000)
  | '+' :: text => (markedInteger? text).any (· ≤ 0xFFFFFFFFFFFFFFFFFFFFFFFFFFFFFFFF)
  | text => (markedInteger? text).any (· ≤ 0xFFFFFFFFFFFFFFFFFFFFFFFFFFFFFFFF)

/-- The text without one leading sign. -/
def dropSign : List Char → List Char
  | '-' :: text => text
  | '+' :: text => text
  | text => text

/-- Whether a text is a run of digits that begins with a superfluous zero. -/
def isPaddedInteger (text : List Char) : Bool :=
  match dropSign text with
  | '0' :: c :: rest => (c :: rest).all Char.isDigit
  | _ => false

/-- Whether a text reads as a number. -/
def isNumeric (text : List Char) : Bool :=
  isMarkedInteger text || isPaddedInteger text
    || (Decimal.binary64? text).any Binary64.isFinite || floatWords.contains (String.ofList text)

/-! ## Texts that read as syntax -/

/-- Whether a word ends here. -/
def endsWord : List Char → Bool
  | [] => true
  | c :: _ => c = ' '

/-- The characters that mean something at the front of a value. -/
def indicators : List Char := "#,[]\x7b\x7d&*!|>'\x22%@`".toList

/-- Whether a text means something else by how it begins, or is empty. -/
def opensSyntax : List Char → Bool
  | [] => true
  | '-' :: rest => endsWord rest || (Text.dropLead? ['-', '-'] rest).isSome
  | '?' :: rest => endsWord rest
  | '.' :: rest => (Text.dropLead? ['.', '.'] rest).isSome
  | c :: _ => c = ' ' || indicators.contains c

/-- Whether a text has a colon that ends a word, or a number sign that begins one. -/
def holdsSyntax : List Char → Bool
  | [] => false
  | ':' :: rest => endsWord rest || holdsSyntax rest
  | ' ' :: rest => rest.head? = some '#' || holdsSyntax rest
  | _ :: rest => holdsSyntax rest

/-- Whether a text of one line reads back as itself without quotes. -/
def isPlain (text : List Char) : Bool :=
  !(opensSyntax text || holdsSyntax text || text.getLast? = some ' '
    || reservedWords.contains (String.ofList text) || isNumeric text)

/-! ## The choice -/

/-- Whether a character of the first kind has one of the second kind right behind it. -/
def hasPair (first second : Char → Bool) : List Char → Bool
  | [] => false
  | c :: rest => (first c && rest.head?.any second) || hasPair first second rest

/-- The style of a text. -/
def style (text : List Char) : Style :=
  if !text.all isPrintable || hasPair (· = ' ') isBreak text then .doubleQuoted
  else if text.contains '\n' then
    if text.getLast? = some ' ' then .doubleQuoted else .literal
  else if text.any isBreak then
    if hasPair isBreak (· = ' ') text then .doubleQuoted else .singleQuoted
  else if isPlain text then .plain
  else .singleQuoted

end ServiceIdl.Yaml
