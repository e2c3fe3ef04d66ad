import ServiceIdl.Proofs.Lists
import ServiceIdl.Shape.Value

/-!
# Number literals can be read

A number literal has a sign, digits, a fraction and an exponent, of which all but
the digits may be absent. `Numeric.exists_ofText?` says that every such literal has
a value: as an integer if it is one and fits, and as a binary64 number otherwise,
whatever its size.
-/

namespace ServiceIdl

namespace Text

/-- A run of at least one digit. -/
structure IsDigits (text : List Char) : Prop where
  ne_nil : text ≠ []
  digit : ∀ c ∈ text, c.isDigit = true

theorem digit?_of_isDigit {c : Char} (digit : c.isDigit = true) :
    digit? 10 c = some (c.toNat - '0'.toNat) := by
  have bounds : 48 ≤ c.val.toNat ∧ c.val.toNat ≤ 57 := by
    simpa [Char.isDigit, UInt32.le_iff_toNat_le] using digit
  have low : '0' ≤ c := by
    rw [Char.le_def, UInt32.le_iff_toNat_le]
    exact bounds.1
  have high : c ≤ '9' := by
    rw [Char.le_def, UInt32.le_iff_toNat_le]
    exact bounds.2
  have small : c.toNat - 48 < 10 := by
    have same : c.toNat = c.val.toNat := rfl
    omega
  simp [digit?, hexDigit?, low, high, small]

/-- Digits are read as the number that they are in decimal. -/
theorem digits?_of_isDigit {text : List Char} (digit : ∀ c ∈ text, c.isDigit = true)
    (value : Nat) : digits? 10 value text = some (Nat.ofDigitChars 10 text value) := by
  induction text generalizing value with
  | nil => rfl
  | cons c rest ih =>
    rw [digits?, digit?_of_isDigit (digit c List.mem_cons_self), Nat.ofDigitChars_cons]
    exact ih (fun d member => digit d (List.mem_cons_of_mem c member)) _

/-- A run of digits is read as the number it writes, leading zeros and any length included. -/
theorem IsDigits.number?_eq {text : List Char} (digits : IsDigits text) :
    number? 10 text = some (Nat.ofDigitChars 10 text 0) := by
  have filled : text.isEmpty = false := List.isEmpty_eq_false_iff.mpr digits.ne_nil
  rw [number?, filled]
  exact digits?_of_isDigit digits.digit 0

end Text

open Text (IsDigits)

namespace Decimal

/-! ## The parts of a literal -/

/-- The fraction of a literal with its point, or nothing. -/
def IsFraction (text : List Char) : Prop :=
  text = [] ∨ ∃ digits, text = '.' :: digits ∧ IsDigits digits

/-- The exponent of a literal with its mark, or nothing. -/
def IsExponent (text : List Char) : Prop :=
  text = [] ∨ ∃ mark sign digits, text = mark :: (sign ++ digits) ∧ (mark = 'e' ∨ mark = 'E') ∧
    (sign = [] ∨ sign = ['+'] ∨ sign = ['-']) ∧ IsDigits digits

/-- A number literal. -/
def IsLiteral (text : List Char) : Prop :=
  ∃ sign whole fraction exponent, text = sign ++ (whole ++ (fraction ++ exponent)) ∧
    (sign = [] ∨ sign = ['-']) ∧ IsDigits whole ∧ IsFraction fraction ∧ IsExponent exponent

theorem exists_cons_of_isDigits {digits : List Char} (run : IsDigits digits) :
    ∃ c rest, digits = c :: rest ∧ c.isDigit = true := by
  cases digits with
  | nil => exact absurd rfl run.ne_nil
  | cons c rest => exact ⟨c, rest, rfl, run.digit c List.mem_cons_self⟩

/-- An integer of 64 signed bits. -/
def IsSigned64 (n : Int) : Prop := minSigned64 ≤ n ∧ n ≤ maxSigned64

/-- The text has neither a fraction nor an exponent: it is digits, possibly behind a minus sign,
that stand for the integer. -/
inductive IsInteger : List Char → Int → Prop
  | natural {digits : List Char} :
    IsDigits digits → IsInteger digits (Nat.ofDigitChars 10 digits 0 : Nat)
  | negative {digits : List Char} :
    IsDigits digits → IsInteger ('-' :: digits) (-(Nat.ofDigitChars 10 digits 0 : Nat))

/-- An integer is read as what it stands for. -/
theorem IsInteger.integer?_eq {text : List Char} {n : Int} (is : IsInteger text n) :
    integer? text = some n := by
  cases is with
  | natural run =>
    obtain ⟨c, rest, rfl, digit⟩ := exists_cons_of_isDigits run
    unfold integer?
    split
    · rename_i head
      cases head
      cases digit
    · rename_i head
      cases head
      cases digit
    · rw [run.number?_eq]
      rfl
  | negative run =>
    rw [integer?, run.number?_eq]
    rfl

/-- A text is one integer at most. -/
theorem IsInteger.unique {text : List Char} {n m : Int} (left : IsInteger text n)
    (right : IsInteger text m) : n = m :=
  Option.some.inj (left.integer?_eq.symm.trans right.integer?_eq)

/-- An integer has no mark of a fraction or an exponent. -/
theorem IsInteger.unmarked {text : List Char} {n : Int} (is : IsInteger text n) :
    (text.any fun c => c = '.' || c = 'e' || c = 'E') = false := by
  have plain {digits : List Char} (run : IsDigits digits) :
      (digits.any fun c => c = '.' || c = 'e' || c = 'E') = false := by
    rw [List.any_eq_false]
    intro c member marked
    have digit := run.digit c member
    simp only [Bool.or_eq_true, decide_eq_true_eq] at marked
    rcases marked with (rfl | rfl) | rfl
    · cases digit
    · cases digit
    · cases digit
  cases is with
  | natural run => exact plain run
  | negative run =>
    rw [List.any_cons, plain run]
    rfl

/-- Of the integers a text writes, the reader returns the one that 64 bits can hold. -/
theorem IsInteger.signed64?_eq_some_iff {text : List Char} {m n : Int} (is : IsInteger text m) :
    signed64? text = some n ↔ IsInteger text n ∧ IsSigned64 n := by
  rw [signed64?, is.integer?_eq, Option.filter_eq_some_iff, Option.some.injEq, decide_eq_true_iff]
  constructor
  · rintro ⟨rfl, fits⟩
    exact ⟨is, fits⟩
  · rintro ⟨is', fits⟩
    exact ⟨is.unique is', fits⟩

/-- What is written as an integer is a number literal. -/
theorem IsInteger.isLiteral {text : List Char} {n : Int} (is : IsInteger text n) :
    IsLiteral text := by
  cases is with
  | natural run => exact ⟨[], _, [], [], by simp, .inl rfl, run, .inl rfl, .inl rfl⟩
  | negative run => exact ⟨['-'], _, [], [], by simp, .inr rfl, run, .inl rfl, .inl rfl⟩

/-- A literal without such a mark is an integer. -/
theorem IsLiteral.exists_isInteger {text : List Char} (literal : IsLiteral text)
    (unmarked : (text.any fun c => c = '.' || c = 'e' || c = 'E') = false) :
    ∃ n, IsInteger text n := by
  rcases literal with ⟨sign, whole, fraction, exponent, rfl, signed, run, parted, scaled⟩
  simp only [List.any_append, Bool.or_eq_false_iff] at unmarked
  obtain ⟨-, -, noFraction, noExponent⟩ := unmarked
  have unparted : fraction = [] := by
    rcases parted with rfl | ⟨digits, rfl, -⟩
    · rfl
    · simp at noFraction
  have unscaled : exponent = [] := by
    rcases scaled with rfl | ⟨mark, _, _, rfl, rfl | rfl, -⟩
    · rfl
    · simp at noExponent
    · simp at noExponent
  rw [unparted, unscaled, List.append_nil, List.append_nil]
  rcases signed with rfl | rfl
  · exact ⟨_, .natural run⟩
  · exact ⟨_, .negative run⟩

/-- An exponent may have a plus sign, too. -/
theorem exists_integer? {sign digits : List Char}
    (signed : sign = [] ∨ sign = ['+'] ∨ sign = ['-']) (run : IsDigits digits) :
    ∃ n, integer? (sign ++ digits) = some n := by
  rcases signed with rfl | rfl | rfl
  · exact ⟨_, (IsInteger.natural run).integer?_eq⟩
  · exact ⟨_, by rw [List.singleton_append, integer?, run.number?_eq]; rfl⟩
  · exact ⟨_, (IsInteger.negative run).integer?_eq⟩

theorem IsExponent.exists_exponent? {text : List Char} (exponent : IsExponent text) :
    ∃ n, exponent? text = some n := by
  rcases exponent with rfl | ⟨mark, sign, digits, rfl, marked, signed, run⟩
  · exact ⟨0, rfl⟩
  · obtain ⟨n, known⟩ := exists_integer? signed run
    exact ⟨n, by rw [exponent?, if_pos marked, known]⟩

/-- An exponent begins with no digit, and with no point. -/
theorem IsExponent.head?_eq {text : List Char} (exponent : IsExponent text) {c : Char}
    (head : text.head? = some c) : c = 'e' ∨ c = 'E' := by
  rcases exponent with rfl | ⟨mark, sign, digits, rfl, marked, -, -⟩
  · cases head
  · cases head
    exact marked

/-- No digit stands where an exponent begins, so the digits in front of it are all read. -/
theorem IsExponent.stop {text : List Char} (exponent : IsExponent text) :
    ∀ c, text.head? = some c → c.isDigit = false := by
  intro c head
  rcases exponent.head?_eq head with rfl | rfl
  · rfl
  · rfl

/-- Digits with a fraction and an exponent are a number. -/
theorem exists_positional? {whole fraction exponent : List Char} (run : IsDigits whole)
    (parted : IsFraction fraction) (scaled : IsExponent exponent) :
    ∃ n, positional? (whole ++ (fraction ++ exponent)) = some n := by
  obtain ⟨power, exponentKnown⟩ := scaled.exists_exponent?
  rcases parted with rfl | ⟨digits, rfl, decimals⟩
  · obtain ⟨front, behind⟩ := takeWhile_run run.digit scaled.stop
    have known := run.number?_eq
    -- What follows the digits is no point.
    have noPoint : ∀ rest, exponent ≠ '.' :: rest := by
      intro rest same
      subst same
      rcases scaled.head?_eq rfl with point | point
      · cases point
      · cases point
    refine ⟨Binary64.ofDecimal (Nat.ofDigitChars 10 whole 0) power, ?_⟩
    rw [positional?, List.nil_append, front, behind]
    cases exponent with
    | nil => simp [known, exponentKnown]
    | cons c rest =>
      split
      rename_i split
      split at split
      · rename_i point
        exact absurd point (noPoint _)
      · cases split
        simp [known, exponentKnown]
  · have stop : ∀ c, ('.' :: (digits ++ exponent)).head? = some c → c.isDigit = false := by
      intro c head
      cases head
      rfl
    obtain ⟨front, behind⟩ := takeWhile_run run.digit stop
    obtain ⟨frontDecimals, behindDecimals⟩ := takeWhile_run decimals.digit scaled.stop
    have both : IsDigits (whole ++ digits) := by
      refine ⟨by simp [run.ne_nil], ?_⟩
      intro c member
      rcases List.mem_append.mp member with left | right
      · exact run.digit c left
      · exact decimals.digit c right
    have known := both.number?_eq
    refine ⟨Binary64.ofDecimal (Nat.ofDigitChars 10 (whole ++ digits) 0)
      (power - digits.length), ?_⟩
    rw [positional?, List.cons_append, front, behind]
    simp only [frontDecimals, behindDecimals, known, exponentKnown]
    rfl

/-- A positional literal that is read at all has a magnitude. -/
theorem exists_magnitude? {text : List Char} {n : Nat} (known : positional? text = some n) :
    ∃ m, magnitude? text = some m := by
  unfold magnitude?
  simp only
  split
  · exact ⟨_, rfl⟩
  · split
    · exact ⟨_, rfl⟩
    · exact ⟨n, known⟩

/-- Every literal has a binary64 number nearest to it. -/
theorem IsLiteral.exists_binary64? {text : List Char} (literal : IsLiteral text) :
    ∃ encoding, binary64? text = some encoding := by
  rcases literal with ⟨sign, whole, fraction, exponent, rfl, signed, run, parted, scaled⟩
  obtain ⟨n, known⟩ := exists_positional? run parted scaled
  obtain ⟨m, magnitude⟩ := exists_magnitude? known
  rcases signed with rfl | rfl
  · obtain ⟨c, rest, rfl, digit⟩ := exists_cons_of_isDigits run
    refine ⟨UInt64.ofNat m, ?_⟩
    rw [List.nil_append, List.cons_append] at *
    unfold binary64?
    split
    · rename_i head
      cases head
      cases digit
    · rename_i head
      cases head
      cases digit
    · rw [magnitude]
      rfl
  · exact ⟨UInt64.ofNat (Binary64.signBit + m), by simp [binary64?, magnitude]⟩

end Decimal

/-- Every literal has a value. -/
theorem Numeric.exists_ofText? {text : String} (literal : Decimal.IsLiteral text.toList) :
    ∃ n, Numeric.ofText? text = some n := by
  obtain ⟨encoding, known⟩ := literal.exists_binary64?
  unfold Numeric.ofText?
  simp only [known]
  split
  · exact ⟨_, rfl⟩
  · exact ⟨.float encoding, rfl⟩

/-- A literal is read as an integer exactly if it is one and has at most 64 signed bits. Then it
is that integer; any other literal is read as a float. -/
theorem Numeric.ofText?_eq_integer_iff {text : String} (literal : Decimal.IsLiteral text.toList)
    {n : Int} : Numeric.ofText? text = some (.integer n) ↔
      Decimal.IsInteger text.toList n ∧ Decimal.IsSigned64 n := by
  unfold Numeric.ofText?
  simp only
  cases marked : text.toList.any fun c => c = '.' || c = 'e' || c = 'E' with
  | true =>
    constructor
    · intro read
      obtain ⟨_, -, other⟩ := Option.map_eq_some_iff.mp read
      cases other
    · rintro ⟨is, -⟩
      cases marked.symm.trans is.unmarked
  | false =>
    obtain ⟨m, is⟩ := literal.exists_isInteger marked
    obtain ⟨encoding, known⟩ := literal.exists_binary64?
    rw [if_neg Bool.false_ne_true, known, ← is.signed64?_eq_some_iff]
    cases Decimal.signed64? text.toList <;> simp

end ServiceIdl
