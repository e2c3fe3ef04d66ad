/-!
# Rounding to binary64

`ofRatio` gives the encoding of the binary64 number nearest to a positive
quotient, a tie going to the even neighbour. All arithmetic is exact: with `q`
the exponent of the last place, the quotient is divided by `2 ^ q` and rounded
to an integer `m ≤ 2 ^ 53`. The encoding of `m * 2 ^ q` is
`(q + 1074) * 2 ^ 52 + m`, for normal and subnormal numbers alike, and a carry
out of `m` moves on to the next exponent by itself.
-/

namespace ServiceIdl.Binary64

/-- The encoding of positive infinity. -/
def infinity : Nat := 0x7FF0000000000000

/-- The encoding of the quiet number that is not one. -/
def notANumber : Nat := 0x7FF8000000000000

/-- The sign bit. -/
def signBit : Nat := 0x8000000000000000

/-- Whether an encoding is that of a finite number. -/
def isFinite (encoding : UInt64) : Bool := encoding.toNat % signBit < infinity

/-- The quotient rounded to the nearest integer, a tie to the even one. -/
def roundDiv (num den : Nat) : Nat :=
  let quotient := num / den
  match compare (2 * (num % den)) den with
  | .lt => quotient
  | .gt => quotient + 1
  | .eq => if quotient % 2 = 0 then quotient else quotient + 1

/-- The greatest `k` with `2 ^ k ≤ num / den`, for positive numbers. -/
def log2Ratio (num den : Nat) : Int :=
  let k : Int := (num.log2 : Int) - den.log2
  if den <<< k.toNat ≤ num <<< (-k).toNat then k else k - 1

/-- The encoding of the number nearest to `num / den`, for positive numbers. -/
def ofRatio (num den : Nat) : Nat :=
  let q : Int := max (log2Ratio num den - 52) (-1074)
  let m := roundDiv (num <<< (-q).toNat) (den <<< q.toNat)
  min ((q + 1074).toNat <<< 52 + m) infinity

/-- The encoding of the number nearest to `digits * 10 ^ exponent`. Below
`10 ^ (-330)` that is zero and above `10 ^ 310` it is infinity, so no large
power has to be computed there. -/
def ofDecimal (digits : Nat) (exponent : Int) : Nat :=
  if digits = 0 then 0
  else
    let places : Int := (Nat.toDigits 10 digits).length + exponent
    if places < -330 then 0
    else if 311 < places then infinity
    else ofRatio (digits * Nat.pow 10 exponent.toNat) (Nat.pow 10 (-exponent).toNat)

end ServiceIdl.Binary64
