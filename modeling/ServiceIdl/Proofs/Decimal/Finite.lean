import ServiceIdl.Decimal.Real
import ServiceIdl.Proofs.Decimal.Written

/-!
# Written integers are finite numbers

An integer of 64 signed bits is written as a text that also reads as a number with a fraction
and an exponent, and the number nearest to it is finite (`Decimal.isFinite_write`). Rounding
leaves at most `2 ^ 53` places, so only the exponent could make the encoding too large.
-/

namespace ServiceIdl

namespace Binary64

/-! ## Rounding integers -/

/-- Rounding to the nearest moves a quotient by at most one. -/
theorem roundDiv_le (num den : Nat) : roundDiv num den ≤ num / den + 1 := by
  unfold roundDiv
  simp only
  split
  · omega
  · omega
  · split <;> omega

/-- The place of the first bit of an integer. -/
theorem log2Ratio_one {n : Nat} (positive : n ≠ 0) : log2Ratio n 1 = n.log2 := by
  have below : 1 <<< n.log2 ≤ n := by
    rw [Nat.one_shiftLeft]
    exact Nat.log2_self_le positive
  have one : Nat.log2 1 = 0 := by decide
  simp [log2Ratio, one, below]

/-- Shifted to its place, an integer keeps at most 53 bits. -/
theorem shifted_lt {n : Nat} (positive : n ≠ 0) :
    n <<< (52 - n.log2) / 1 <<< (n.log2 - 52) < 2 ^ 53 := by
  have above : n < 2 ^ (n.log2 + 1) := (Nat.log2_lt positive).mp (Nat.lt_succ_self _)
  rw [Nat.shiftLeft_eq, Nat.one_shiftLeft]
  apply Nat.div_lt_of_lt_mul
  calc n * 2 ^ (52 - n.log2)
      < 2 ^ (n.log2 + 1) * 2 ^ (52 - n.log2) :=
        Nat.mul_lt_mul_of_pos_right above (Nat.two_pow_pos _)
    _ = 2 ^ (n.log2 - 52) * 2 ^ 53 := by
      rw [← Nat.pow_add, ← Nat.pow_add]
      congr 1
      omega

/-- An integer of 64 bits is encoded below infinity. -/
theorem ofRatio_one_lt_infinity {n : Nat} (positive : n ≠ 0) (small : n < 2 ^ 64) :
    ofRatio n 1 < infinity := by
  have log : n.log2 < 64 := (Nat.log2_lt positive).mpr small
  have place : max ((n.log2 : Int) - 52) (-1074) = (n.log2 : Int) - 52 := by omega
  have left : (-((n.log2 : Int) - 52)).toNat = 52 - n.log2 := by omega
  have right : ((n.log2 : Int) - 52).toNat = n.log2 - 52 := by omega
  have exponent : ((n.log2 : Int) - 52 + 1074).toNat = n.log2 + 1022 := by omega
  have rounded : roundDiv (n <<< (52 - n.log2)) (1 <<< (n.log2 - 52)) ≤ 2 ^ 53 :=
    Nat.le_trans (roundDiv_le _ _) (shifted_lt positive)
  unfold ofRatio
  simp only [log2Ratio_one positive, place, left, right, exponent, Nat.shiftLeft_eq (_ + 1022)]
  unfold infinity
  omega

/-- An integer of 64 bits is a finite number. -/
theorem ofDecimal_lt_infinity {n : Nat} (small : n < 2 ^ 64) : ofDecimal n 0 < infinity := by
  unfold ofDecimal
  split
  · decide
  · rename_i positive
    have length : (Nat.toDigits 10 n).length ≤ 20 :=
      (Nat.length_toDigits_le_iff (by decide) (by decide)).mpr (by omega)
    have low : ¬ ((Nat.toDigits 10 n).length : Int) + 0 < -330 := by omega
    have high : ¬ 311 < ((Nat.toDigits 10 n).length : Int) + 0 := by omega
    simp only [low, high, ↓reduceIte]
    have one : Nat.pow 10 0 = 1 := rfl
    simpa [one] using ofRatio_one_lt_infinity positive small

/-- A bit pattern below that of infinity is one of a finite number. -/
theorem isFinite_ofNat {n : Nat} (finite : n < infinity) : isFinite (UInt64.ofNat n) = true := by
  unfold infinity at finite
  simp only [isFinite, signBit, infinity, UInt64.toNat_ofNat', decide_eq_true_eq]
  omega

/-- The sign does not matter. -/
theorem isFinite_ofNat_signBit {n : Nat} (finite : n < infinity) :
    isFinite (UInt64.ofNat (signBit + n)) = true := by
  unfold infinity at finite
  simp only [isFinite, signBit, infinity, UInt64.toNat_ofNat', decide_eq_true_eq]
  omega

end Binary64

namespace Decimal

open Text (IsDigits)

/-- Digits do not spell a name. -/
theorem map_toLower_ne {digits : List Char} (run : IsDigits digits) {name : String}
    (named : name.toList.head?.any Char.isDigit = false) :
    String.ofList (digits.map Char.toLower) ≠ name := by
  rintro rfl
  obtain ⟨c, rest, rfl, digit⟩ := exists_cons_of_isDigits run
  have small : ¬ (65 ≤ c.val ∧ c.val ≤ 90) := by
    simp only [Char.isDigit, Bool.and_eq_true, decide_eq_true_eq] at digit
    intro capital
    exact absurd (UInt32.le_trans capital.1 digit.2) (by decide)
  have same : c.toLower = c := by
    unfold Char.toLower
    rw [dif_neg (by simpa using small)]
  simp [same, digit] at named

/-- Digits alone are a number without fraction and exponent. -/
theorem magnitude?_toDigits (n : Nat) :
    magnitude? (Nat.toDigits 10 n) = some (Binary64.ofDecimal n 0) := by
  have run := Text.isDigits_toDigits n
  have stop : ∀ c : Char, [].head? = some c → c.isDigit = false := by simp
  obtain ⟨front, behind⟩ := takeWhile_run run.digit stop
  rw [List.append_nil] at front behind
  have positional : positional? (Nat.toDigits 10 n) = some (Binary64.ofDecimal n 0) := by
    unfold positional?
    rw [front, behind]
    simp [Text.number?_toDigits, exponent?]
  have inf := map_toLower_ne run (show "inf".toList.head?.any Char.isDigit = false from rfl)
  have infinity :=
    map_toLower_ne run (show "infinity".toList.head?.any Char.isDigit = false from rfl)
  have nan := map_toLower_ne run (show "nan".toList.head?.any Char.isDigit = false from rfl)
  simp [magnitude?, inf, infinity, nan, positional]

/-- The double of a run of digits is that of its magnitude; no sign or exponent is read. -/
theorem binary64?_of_isDigits {digits : List Char} (run : IsDigits digits) :
    binary64? digits = (magnitude? digits).map UInt64.ofNat := by
  obtain ⟨c, rest, rfl, digit⟩ := exists_cons_of_isDigits run
  unfold binary64?
  split
  · rename_i head
    cases head
    cases digit
  · rename_i head
    cases head
    cases digit
  · rfl

/-- A written integer of 64 signed bits reads as a finite number. -/
theorem isFinite_write {n : Int} (fits : IsSigned64 n) :
    (binary64? (write n)).any Binary64.isFinite = true := by
  obtain ⟨low, high⟩ := fits
  unfold minSigned64 at low
  unfold maxSigned64 at high
  cases n with
  | ofNat n =>
    have small : n < 2 ^ 64 := by
      change (n : Int) ≤ _ at high
      omega
    rw [write, binary64?_of_isDigits (Text.isDigits_toDigits n), magnitude?_toDigits]
    exact Binary64.isFinite_ofNat (Binary64.ofDecimal_lt_infinity small)
  | negSucc n =>
    have small : n + 1 < 2 ^ 64 := by omega
    rw [write, binary64?, magnitude?_toDigits]
    exact Binary64.isFinite_ofNat_signBit (Binary64.ofDecimal_lt_infinity small)

end Decimal

end ServiceIdl
