import Mathlib.Logic.Function.Basic
import ServiceIdl.Proofs.Render.Yaml.Row
import ServiceIdl.Proofs.Text.Escape
import ServiceIdl.Render.Yaml.Scalar

/-!
# Quoted texts are told apart

In either kind of quotes a text is written character by character, and the first character is
read off what is written for it whatever follows (`IsPrefixCode`). So the quotes hold one text
only (`singleQuote_injective`, `doubleQuote_injective`). Nothing in double quotes breaks a line.
-/

namespace ServiceIdl.Yaml

open Function (Injective)

/-! ## Prefix codes -/

/-- Every code tells what it is the code of, whatever follows it. -/
structure IsPrefixCode {α β : Type} (code : α → List β) : Prop where
  ne_nil : ∀ a, code a ≠ []
  eq_of_append : ∀ {a b rest rest'}, code a ++ rest = code b ++ rest' → a = b

/-- A text in a prefix code is read back code by code. -/
theorem IsPrefixCode.flatMap_injective {α β : Type} {code : α → List β}
    (prefixCode : IsPrefixCode code) : Injective fun text : List α => text.flatMap code := by
  intro text other same
  simp only at same
  induction text generalizing other with
  | nil =>
    cases other with
    | nil => rfl
    | cons b others =>
      rw [List.flatMap_nil, List.flatMap_cons] at same
      exact absurd (List.append_eq_nil_iff.mp same.symm).1 (prefixCode.ne_nil b)
  | cons a text ih =>
    cases other with
    | nil =>
      rw [List.flatMap_nil, List.flatMap_cons] at same
      exact absurd (List.append_eq_nil_iff.mp same).1 (prefixCode.ne_nil a)
    | cons b others =>
      rw [List.flatMap_cons, List.flatMap_cons] at same
      have head := prefixCode.eq_of_append same
      rw [head] at same
      rw [head, ih (List.append_cancel_left same)]

/-! ## Single quotes -/

theorem isPrefixCode_double (quote : Char) :
    IsPrefixCode fun c : Char => if c = quote then [quote, quote] else [c] where
  ne_nil c := by
    split <;> exact List.cons_ne_nil _ _
  eq_of_append := by
    intro c d rest rest' same
    split at same <;> split at same <;> simp_all

theorem singleQuote_injective : Injective singleQuote := by
  intro text other same
  exact (isPrefixCode_double '\x27').flatMap_injective (eq_of_cons_append_singleton_eq same)

/-! ## Double quotes -/

/-- The character that a letter behind a backslash stands for. -/
def charOfLetter? : Char → Option Char
  | '0' => some '\x00'
  | 'a' => some '\x07'
  | 'b' => some '\x08'
  | 't' => some '\t'
  | 'n' => some '\n'
  | 'v' => some '\x0b'
  | 'f' => some '\x0c'
  | 'r' => some '\r'
  | 'e' => some '\x1b'
  | '\x22' => some '\x22'
  | '\\' => some '\\'
  | 'N' => some '\u0085'
  | 'L' => some '\u2028'
  | 'P' => some '\u2029'
  | _ => none

/-- The number of digits behind a letter that stands for a code point. -/
def widthOfLetter? : Char → Option Nat
  | 'x' => some 2
  | 'u' => some 4
  | 'U' => some 8
  | _ => none

/-- The first character of what stands between double quotes. -/
def firstChar? : List Char → Option Char
  | '\\' :: letter :: rest =>
    match widthOfLetter? letter with
    | some width => (Text.digits? 16 0 (rest.take width)).bind Text.ofCodePoint?
    | none => charOfLetter? letter
  | c :: _ => some c
  | [] => none

/-- The letter of an escape tells the character, and it announces no digits. -/
theorem charOfLetter?_of_letterOf? {c letter : Char} (known : letterOf? c = some letter) :
    charOfLetter? letter = some c ∧ widthOfLetter? letter = none := by
  unfold letterOf? at known
  split at known <;> first | (cases known; exact ⟨rfl, rfl⟩) | cases known

theorem length_capitalHex (width n : Nat) : (capitalHex width n).length = width := by
  rw [capitalHex, List.length_map, Text.length_hex]

/-- A number is read back from its digits in capitals. -/
theorem digits?_capitalHex (width n : Nat) :
    Text.digits? 16 0 (capitalHex width n) = some (n % 16 ^ width) := by
  induction width generalizing n with
  | zero => simp [capitalHex, Text.hex, Text.digits?, Nat.mod_one]
  | succ width ih =>
    have capital : ∀ m < 16, Text.digit? 16 (Nat.digitChar m).toUpper = some m := by decide
    have last := capital (n % 16) (Nat.mod_lt n (by decide))
    have split : n % 16 ^ (width + 1) = n % 16 + 16 * (n / 16 % 16 ^ width) := by
      rw [Nat.pow_succ', Nat.mod_mul]
    have apart : capitalHex (width + 1) n =
        capitalHex width (n / 16) ++ [(Nat.digitChar (n % 16)).toUpper] := by
      simp [capitalHex, Text.hex]
    rw [apart, Text.digits?_append, ih, Option.bind_some, Text.digits?, last, split, Nat.add_comm]
    rfl

/-- An escape by number is read back, whatever follows its digits. -/
theorem firstChar?_of_capitalHex {letter c : Char} {width : Nat}
    (known : widthOfLetter? letter = some width) (small : c.toNat < 16 ^ width)
    (rest : List Char) :
    firstChar? ('\\' :: letter :: (capitalHex width c.toNat ++ rest)) = some c := by
  have front : (capitalHex width c.toNat ++ rest).take width = capitalHex width c.toNat :=
    List.take_left' (length_capitalHex width c.toNat)
  simp only [firstChar?, known]
  rw [front, digits?_capitalHex, Nat.mod_eq_of_lt small, Option.bind_some,
    Text.ofCodePoint?_toNat]

/-- The first character is read off what is written for it. -/
theorem firstChar?_escape_append (c : Char) (rest : List Char) :
    firstChar? (escape c ++ rest) = some c := by
  unfold escape
  cases letter : letterOf? c with
  | some l =>
    obtain ⟨known, noWidth⟩ := charOfLetter?_of_letterOf? letter
    simp only [List.cons_append, List.nil_append, firstChar?, noWidth, known]
  | none =>
    simp only
    split
    · have noMark : c ≠ '\\' := by
        rintro rfl
        cases letter
      simp only [List.cons_append, List.nil_append]
      unfold firstChar?
      split <;> simp_all
    split
    · rename_i small
      exact firstChar?_of_capitalHex rfl (Nat.lt_of_le_of_lt small (by decide)) rest
    split
    · rename_i small
      exact firstChar?_of_capitalHex rfl (Nat.lt_of_le_of_lt small (by decide)) rest
    · exact firstChar?_of_capitalHex rfl c.val.toNat_lt rest

/-- Escapes are told apart by the letter behind the backslash. -/
theorem isPrefixCode_escape : IsPrefixCode escape where
  ne_nil c := by
    intro nothing
    have read := firstChar?_escape_append c []
    rw [nothing] at read
    cases read
  eq_of_append := by
    intro c d rest rest' same
    have read := firstChar?_escape_append c rest
    rw [same, firstChar?_escape_append] at read
    exact (Option.some.inj read).symm

theorem doubleQuote_injective : Injective doubleQuote := by
  intro text other same
  exact isPrefixCode_escape.flatMap_injective (eq_of_cons_append_singleton_eq same)

theorem isBreak_letterOf? {c letter : Char} (known : letterOf? c = some letter) :
    isBreak letter = false := by
  unfold letterOf? at known
  split at known <;> first | (cases known; rfl) | cases known

/-- A character that has no letter is no break, since every break has one. -/
theorem isBreak_eq_false_of_letterOf? {c : Char} (absent : letterOf? c = none) :
    isBreak c = false :=
  isBreak_eq_false_of (letterOf? · = none) absent (by decide) (by decide) (by decide)

theorem isBreak_capitalHex {width n : Nat} : ∀ d ∈ capitalHex width n, isBreak d = false := by
  have checked : ∀ m < 16, isBreak (Nat.digitChar m).toUpper = false := by decide
  refine List.forall_mem_map.mpr fun digit inside => ?_
  induction width generalizing n with
  | zero => cases inside
  | succ width ih =>
    rcases List.mem_append.mp inside with front | last
    · exact ih front
    · rw [List.mem_singleton.mp last]
      exact checked (n % 16) (Nat.mod_lt n (by decide))

/-- What is written for a character in double quotes has no break. -/
theorem isBreak_escape (c : Char) : ∀ d ∈ escape c, isBreak d = false := by
  have point {letter : Char} (visible : isBreak letter = false) {width n : Nat} :
      ∀ d ∈ '\\' :: letter :: capitalHex width n, isBreak d = false :=
    List.forall_mem_cons.mpr ⟨rfl, List.forall_mem_cons.mpr ⟨visible, isBreak_capitalHex⟩⟩
  unfold escape
  cases letter : letterOf? c with
  | some l => simpa [show isBreak '\\' = false from rfl] using isBreak_letterOf? letter
  | none =>
    simp only
    split
    · simpa using isBreak_eq_false_of_letterOf? letter
    split
    · exact point rfl
    split
    · exact point rfl
    · exact point rfl

theorem isBreak_doubleQuote (text : List Char) : ∀ d ∈ doubleQuote text, isBreak d = false := by
  refine List.forall_mem_cons.mpr ⟨rfl, List.forall_mem_append.mpr ⟨?_, ?_⟩⟩
  · exact List.forall_mem_flatMap.mpr fun c _ => isBreak_escape c
  · exact List.forall_mem_singleton.mpr rfl

end ServiceIdl.Yaml
