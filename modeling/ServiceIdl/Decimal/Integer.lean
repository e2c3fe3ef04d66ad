import ServiceIdl.Text.Digit

/-!
# Decimal integers

Integers in ASCII digits. In a text that is read the sign is optional; `signed64?`
reads the integers of 64 signed bits, `unsigned32?` the unsigned ones of 32 bits.
`write` puts a sign before negative numbers only.
-/

namespace ServiceIdl.Decimal

/-- An integer: digits after an optional sign. -/
def integer? : List Char → Option Int
  | '-' :: digits => (Text.number? 10 digits).map fun n => -(n : Int)
  | '+' :: digits => (Text.number? 10 digits).map fun n => (n : Int)
  | digits => (Text.number? 10 digits).map fun n => (n : Int)

/-- The least integer of 64 signed bits. -/
def minSigned64 : Int := -0x8000000000000000

/-- The greatest integer of 64 signed bits. -/
def maxSigned64 : Int := 0x7FFFFFFFFFFFFFFF

/-- An integer that fits into 64 signed bits. -/
def signed64? (text : List Char) : Option Int :=
  (integer? text).filter fun n => minSigned64 ≤ n ∧ n ≤ maxSigned64

/-- A run of digits whose value fits into 32 bits. -/
def unsigned32? (text : List Char) : Option Nat :=
  (Text.number? 10 text).filter fun n => n < 0x100000000

/-- The text of an integer. -/
def write : Int → List Char
  | .ofNat n => Nat.toDigits 10 n
  | .negSucc n => '-' :: Nat.toDigits 10 (n + 1)

end ServiceIdl.Decimal
