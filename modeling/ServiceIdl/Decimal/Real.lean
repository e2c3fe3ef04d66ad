import ServiceIdl.Decimal.Integer
import ServiceIdl.Decimal.Binary64

/-!
# Decimal numbers as binary64

`binary64?` reads a decimal number and answers with the encoding of the nearest
binary64 number. The digits may stand before or after the point, or both, and
an exponent has at least one digit. The names of infinity and of the number
that is not one count in any case; everything may have a sign.
-/

namespace ServiceIdl.Decimal

/-- The exponent at the end of a number, which may be absent. -/
def exponent? : List Char → Option Int
  | [] => some 0
  | c :: rest => if c = 'e' ∨ c = 'E' then integer? rest else none

/-- The encoding of a number without a sign, written in digits. -/
def positional? (text : List Char) : Option Nat :=
  let whole := text.takeWhile Char.isDigit
  let (fraction, rest) :=
    match text.dropWhile Char.isDigit with
    | '.' :: rest => (rest.takeWhile Char.isDigit, rest.dropWhile Char.isDigit)
    | rest => ([], rest)
  (Text.number? 10 (whole ++ fraction)).bind fun digits =>
    (exponent? rest).map fun exponent =>
      Binary64.ofDecimal digits (exponent - fraction.length)

/-- The encoding of a number without a sign. -/
def magnitude? (text : List Char) : Option Nat :=
  let name := String.ofList (text.map Char.toLower)
  if name = "inf" ∨ name = "infinity" then some Binary64.infinity
  else if name = "nan" then some Binary64.notANumber
  else positional? text

/-- The encoding of a number. The sign is kept, also that of zero. -/
def binary64? : List Char → Option UInt64
  | '-' :: text => (magnitude? text).map fun n => UInt64.ofNat (Binary64.signBit + n)
  | '+' :: text => (magnitude? text).map UInt64.ofNat
  | text => (magnitude? text).map UInt64.ofNat

end ServiceIdl.Decimal
