/-!
# Digits

Digits of any radix up to 16, read in either case, and hexadecimal numbers of a
fixed width.
-/

namespace ServiceIdl.Text

/-- The value of a hexadecimal digit of either case. -/
def hexDigit? (c : Char) : Option Nat :=
  if '0' ≤ c ∧ c ≤ '9' then some (c.toNat - '0'.toNat)
  else if 'a' ≤ c ∧ c ≤ 'f' then some (c.toNat - 'a'.toNat + 10)
  else if 'A' ≤ c ∧ c ≤ 'F' then some (c.toNat - 'A'.toNat + 10)
  else none

/-- The value of a digit of a radix up to 16. -/
def digit? (radix : Nat) (c : Char) : Option Nat := (hexDigit? c).filter (· < radix)

/-- The value of a run of digits read after `value`. -/
def digits? (radix value : Nat) : List Char → Option Nat
  | [] => some value
  | c :: rest => (digit? radix c).bind fun digit => digits? radix (radix * value + digit) rest

/-- The value of a text of at least one digit and nothing else. -/
def number? (radix : Nat) (text : List Char) : Option Nat :=
  if text.isEmpty then none else digits? radix 0 text

/-- The last `width` hexadecimal digits of a number, in small letters. -/
def hex : Nat → Nat → List Char
  | 0, _ => []
  | width + 1, n => hex width (n / 16) ++ [Nat.digitChar (n % 16)]

end ServiceIdl.Text
