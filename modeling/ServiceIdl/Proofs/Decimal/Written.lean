import Mathlib.Algebra.Group.Nat.Defs
import ServiceIdl.Proofs.Decimal.Literal

/-!
# Written numbers are read again

`Decimal.write` puts an integer into digits, and every reader of integers takes it
back from them: `Numeric.ofText?_write` for the literals of a document, as long as
the integer has 64 signed bits. The hexadecimal digits of an escaped character are
undone in the same way, up to the width that they were written with.
-/

namespace ServiceIdl

namespace Text

/-! ## Digits -/

theorem hexDigit?_digitChar {n : Nat} (small : n < 16) :
    hexDigit? (Nat.digitChar n) = some n := by
  have checked : ∀ m < 16, hexDigit? (Nat.digitChar m) = some m := by decide
  exact checked n small

/-- The digit written for a number is read back as that number. -/
theorem digit?_digitChar {radix n : Nat} (fits : radix ≤ 16) (small : n < radix) :
    digit? radix (Nat.digitChar n) = some n := by
  rw [digit?, hexDigit?_digitChar (by omega)]
  simp [small]

/-- Reading digits goes on behind a front with the value reached there. -/
theorem digits?_append (radix value : Nat) (front behind : List Char) :
    digits? radix value (front ++ behind) =
      (digits? radix value front).bind fun read => digits? radix read behind := by
  induction front generalizing value with
  | nil => rfl
  | cons c front ih =>
    rw [List.cons_append, digits?, digits?]
    cases digit? radix c with
    | none => rfl
    | some digit => exact ih (radix * value + digit)

/-- One more digit at the end of a run. -/
theorem digits?_append_digitChar {radix value read n : Nat} {front : List Char}
    (fits : radix ≤ 16) (small : n < radix) (known : digits? radix value front = some read) :
    digits? radix value (front ++ [Nat.digitChar n]) = some (radix * read + n) := by
  rw [digits?_append, known, Option.bind_some, digits?, digit?_digitChar fits small]
  rfl

theorem isDigits_toDigits (n : Nat) : IsDigits (Nat.toDigits 10 n) :=
  ⟨Nat.toDigits_ne_nil, fun _ member => Nat.isDigit_of_mem_toDigits (by decide) (by decide) member⟩

theorem number?_toDigits (n : Nat) : number? 10 (Nat.toDigits 10 n) = some n := by
  rw [(isDigits_toDigits n).number?_eq, Nat.ofDigitChars_toDigits (by decide) (by decide)]

/-- What holds of the ten digits holds of every digit of a decimal number. -/
theorem of_mem_toDigits {holds : Char → Prop} (checked : ∀ m < 10, holds (Nat.digitChar m))
    {n : Nat} {c : Char} (member : c ∈ Nat.toDigits 10 n) : holds c := by
  induction n using Nat.strongRecOn with
  | ind n ih =>
    rw [Nat.toDigits_eq_if (by decide)] at member
    split at member
    · rename_i small
      rw [List.mem_singleton.mp member]
      exact checked n small
    · rcases List.mem_append.mp member with front | last
      · exact ih (n / 10) (by omega) front
      · rw [List.mem_singleton.mp last]
        exact checked (n % 10) (Nat.mod_lt n (by decide))

/-! ## Hexadecimal digits of a fixed width -/

/-- Of `width` hexadecimal digits only that many are kept of the number. -/
theorem digits?_hex (width n : Nat) : digits? 16 0 (hex width n) = some (n % 16 ^ width) := by
  induction width generalizing n with
  | zero => simp [hex, digits?, Nat.mod_one]
  | succ width ih =>
    have last :=
      digits?_append_digitChar (by decide) (Nat.mod_lt n (by decide : 0 < 16)) (ih (n / 16))
    have split : n % 16 ^ (width + 1) = n % 16 + 16 * (n / 16 % 16 ^ width) := by
      rw [Nat.pow_succ', Nat.mod_mul]
    rw [hex, last, split, Nat.add_comm]

theorem length_hex (width n : Nat) : (hex width n).length = width := by
  induction width generalizing n with
  | zero => rfl
  | succ width ih => rw [hex, List.length_append, ih]; rfl

end Text

namespace Decimal

/-- A written integer stands for itself. -/
theorem isInteger_write (n : Int) : IsInteger (write n) n := by
  cases n with
  | ofNat n =>
    have is := IsInteger.natural (Text.isDigits_toDigits n)
    rwa [Nat.ofDigitChars_toDigits (by decide) (by decide)] at is
  | negSucc n =>
    have is := IsInteger.negative (Text.isDigits_toDigits (n + 1))
    rwa [Nat.ofDigitChars_toDigits (by decide) (by decide)] at is

/-- Every integer survives being written and read. -/
theorem integer?_write (n : Int) : integer? (write n) = some n := (isInteger_write n).integer?_eq

theorem write_injective : Function.Injective write := by
  intro m n same
  have read := integer?_write m
  rw [same, integer?_write] at read
  exact (Option.some.inj read).symm

/-- A written integer begins with its sign or with a digit. -/
theorem exists_cons_of_write {holds : Char → Prop} (sign : holds '-')
    (checked : ∀ m < 10, holds (Nat.digitChar m)) (n : Int) :
    ∃ c more, write n = c :: more ∧ holds c := by
  cases n with
  | ofNat n =>
    obtain ⟨c, more, written, -⟩ := exists_cons_of_isDigits (Text.isDigits_toDigits n)
    have first : c ∈ Nat.toDigits 10 n := by
      rw [written]
      exact List.mem_cons_self
    exact ⟨c, more, written, Text.of_mem_toDigits checked first⟩
  | negSucc n => exact ⟨'-', Nat.toDigits 10 (n + 1), rfl, sign⟩

/-- A written integer is made of digits, with a sign at most. -/
theorem isDigit_of_mem_write {n : Int} {c : Char} (member : c ∈ write n) :
    c = '-' ∨ c.isDigit = true := by
  cases n with
  | ofNat n => exact .inr ((Text.isDigits_toDigits n).digit c member)
  | negSucc n =>
    rcases List.mem_cons.mp member with sign | digit
    · exact .inl sign
    · exact .inr ((Text.isDigits_toDigits (n + 1)).digit c digit)

/-- Only signs and digits occur in a written integer. -/
theorem not_mem_write {n : Int} {c : Char} (sign : c ≠ '-') (other : c.isDigit = false) :
    c ∉ write n := by
  intro member
  rcases isDigit_of_mem_write member with same | digit
  · exact sign same
  · cases other.symm.trans digit

end Decimal

/-- A written integer of 64 signed bits is the literal of that integer. -/
theorem Numeric.ofText?_write {text : String} {n : Int} (fits : Decimal.IsSigned64 n)
    (written : text.toList = Decimal.write n) : Numeric.ofText? text = some (.integer n) := by
  have is := Decimal.isInteger_write n
  rw [← written] at is
  exact (Numeric.ofText?_eq_integer_iff is.isLiteral).mpr ⟨is, fits⟩

end ServiceIdl
