import ServiceIdl.Text.Digit

/-!
# Backslash escapes

`unescape` resolves the escapes of quoted text. It never fails: whatever is no
known escape stays as written.
-/

namespace ServiceIdl.Text

/-- The character that a backslash and one letter stand for. -/
def letterEscape? : Char → Option Char
  | 'n' => some '\n'
  | 't' => some '\t'
  | 'r' => some '\r'
  | 'b' => some '\x08'
  | 'f' => some '\x0c'
  | '"' => some '"'
  | '\'' => some '\''
  | '\\' => some '\\'
  | '/' => some '/'
  | _ => none

/-- A hexadecimal number of at least one digit, which may have a plus sign. -/
def hexNumber? : List Char → Option Nat
  | '+' :: digits => number? 16 digits
  | digits => number? 16 digits

/-- The character with a code point, unless that is a surrogate or too large. -/
def ofCodePoint? (n : Nat) : Option Char :=
  if n.isValidChar then some (Char.ofNat n) else none

/-- Resolves the escapes of a quoted text. `\u` takes the next four characters,
or as many as there are, and stays as written with them if they are no number
of a character; a backslash before a line feed vanishes with it. -/
def unescape : List Char → List Char
  | [] => []
  | '\\' :: 'u' :: rest =>
    match (hexNumber? (rest.take 4)).bind ofCodePoint? with
    | some c => c :: unescape (rest.drop 4)
    | none => '\\' :: 'u' :: (rest.take 4 ++ unescape (rest.drop 4))
  | '\\' :: '\n' :: rest => unescape rest
  | '\\' :: c :: rest =>
    match letterEscape? c with
    | some d => d :: unescape rest
    | none => '\\' :: c :: unescape rest
  | c :: rest => c :: unescape rest
termination_by text => text.length
decreasing_by
  all_goals simp only [List.length_cons, List.length_drop]
  all_goals omega

end ServiceIdl.Text
