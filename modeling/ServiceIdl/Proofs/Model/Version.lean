import ServiceIdl.Model.Options
import ServiceIdl.Proofs.Decimal.Literal

/-!
# Versions

A version text begins with a number if, without the white space at both ends and without one `v`
in front of the rest, it begins with a digit. The number is the exact value of all digits up to
the first other character, and it counts if it has 32 bits at most
(`leadingMajorVersion?_eq_some_iff`).
-/

namespace ServiceIdl

/-! ## White space -/

namespace Text

variable {text inner : List Char}

/-- What is left of the text without the white space at both ends. -/
def Trims (text inner : List Char) : Prop :=
  ∃ front behind, text = front ++ (inner ++ behind) ∧
    (∀ c ∈ front, isBlank c = true) ∧ (∀ c ∈ behind, isBlank c = true) ∧
    (∀ c, inner.head? = some c → isBlank c = false) ∧
    ∀ c, inner.getLast? = some c → isBlank c = false

/-- Blanks at the end are taken off like blanks in front of the text read backwards. -/
theorem trim_append {front behind : List Char} (before : ∀ c ∈ front, isBlank c = true)
    (after : ∀ c ∈ behind, isBlank c = true)
    (head : ∀ c, inner.head? = some c → isBlank c = false)
    (last : ∀ c, inner.getLast? = some c → isBlank c = false) :
    trim (front ++ (inner ++ behind)) = inner := by
  have back : (inner ++ behind).reverse.dropWhile isBlank = inner.reverse := by
    rw [List.reverse_append]
    refine (takeWhile_run (fun c member => after c (List.mem_reverse.mp member)) ?_).2
    rw [List.head?_reverse]
    exact last
  unfold trim
  cases inner with
  | nil =>
    -- The text is blank, and nothing is left of it from the front on.
    have all : ∀ c ∈ front ++ behind, isBlank c = true :=
      fun c member => (List.mem_append.mp member).elim (before c) (after c)
    rw [List.nil_append, List.dropWhile_eq_nil_iff.mpr all]
    rfl
  | cons c rest =>
    have stop : ∀ d, (c :: rest ++ behind).head? = some d → isBlank d = false := head
    rw [(takeWhile_run before stop).2, back, List.reverse_reverse]

/-- The function trims what the relation describes. -/
theorem trims_iff : Trims text inner ↔ trim text = inner := by
  constructor
  · rintro ⟨front, behind, rfl, before, after, head, last⟩
    exact trim_append before after head last
  · rintro rfl
    have front := List.takeWhile_append_dropWhile (p := isBlank) (l := text)
    have behind := List.takeWhile_append_dropWhile (p := isBlank)
      (l := (text.dropWhile isBlank).reverse)
    have left : text.dropWhile isBlank =
        trim text ++ ((text.dropWhile isBlank).reverse.takeWhile isBlank).reverse := by
      rw [trim, ← List.reverse_append, behind, List.reverse_reverse]
    refine ⟨text.takeWhile isBlank, _, by rw [← left, front], fun c => List.mem_takeWhile_imp,
      fun c member => List.mem_takeWhile_imp (List.mem_reverse.mp member), ?_, ?_⟩
    · intro c head
      have first : (text.dropWhile isBlank).head? = some c := by
        rw [left, List.head?_append, head]
        rfl
      exact not_of_head?_dropWhile first
    · intro c last
      rw [trim, List.getLast?_reverse] at last
      exact not_of_head?_dropWhile last

end Text

/-! ## Numbers -/

/-- What is left of the text without one `v` of either case in front. -/
inductive DropsMark : List Char → List Char → Prop
  | marked {c : Char} {rest : List Char} : c = 'v' ∨ c = 'V' → DropsMark (c :: rest) rest
  | bare {text : List Char} : (∀ c, text.head? = some c → c ≠ 'v' ∧ c ≠ 'V') → DropsMark text text

/-- The function drops the mark that the relation describes, and only one. -/
theorem dropsMark_iff {text rest : List Char} :
    DropsMark text rest ↔ dropVersionMark text = rest := by
  constructor
  · intro drops
    cases drops with
    | marked mark => rcases mark with rfl | rfl <;> rfl
    | bare other =>
      unfold dropVersionMark
      split
      · exact absurd rfl (other _ rfl).1
      · exact absurd rfl (other _ rfl).2
      · rfl
  · rintro rfl
    unfold dropVersionMark
    split
    · exact .marked (.inl rfl)
    · exact .marked (.inr rfl)
    · rename_i small capital
      refine .bare fun c head => ?_
      cases text with
      | nil => cases head
      | cons d rest =>
        cases head
        constructor
        · rintro rfl
          exact small rest rfl
        · rintro rfl
          exact capital rest rfl

/-- The version begins with a run of digits, as long as there are any, that stands for this
number. White space around the version and one `v` in front of the digits do not count. -/
def BeginsWithNumber (version : List Char) (n : Nat) : Prop :=
  ∃ inner digits rest, Text.Trims version inner ∧ DropsMark inner (digits ++ rest) ∧
    Text.IsDigits digits ∧ (∀ c, rest.head? = some c → c.isDigit = false) ∧
    n = Nat.ofDigitChars 10 digits 0

theorem BeginsWithNumber.unique {version : List Char} {n m : Nat}
    (left : BeginsWithNumber version n) (right : BeginsWithNumber version m) : n = m := by
  obtain ⟨_, digits, _, trims, drops, run, stop, rfl⟩ := left
  obtain ⟨_, digits', _, trims', drops', run', stop', rfl⟩ := right
  cases (Text.trims_iff.mp trims).symm.trans (Text.trims_iff.mp trims')
  have same := (dropsMark_iff.mp drops).symm.trans (dropsMark_iff.mp drops')
  have front := congrArg (List.takeWhile Char.isDigit) same
  rw [(takeWhile_run run.digit stop).1, (takeWhile_run run'.digit stop').1] at front
  rw [front]

/-- The number at the front of a version is the exact value of its digits, if that has at most 32
bits. -/
theorem leadingMajorVersion?_eq_some_iff {version : String} {n : Nat} :
    leadingMajorVersion? version = some n ↔
      BeginsWithNumber version.toList n ∧ n < 0x100000000 := by
  unfold leadingMajorVersion? Decimal.unsigned32?
  rw [Option.filter_eq_some_iff, decide_eq_true_iff]
  refine and_congr_left fun _ => ?_
  constructor
  · intro read
    have split := List.takeWhile_append_dropWhile (p := Char.isDigit)
      (l := dropVersionMark (Text.trim version.toList))
    generalize run : (dropVersionMark (Text.trim version.toList)).takeWhile Char.isDigit = digits
      at read split
    have digit : ∀ c ∈ digits, c.isDigit = true := by
      rw [← run]
      exact fun c => List.mem_takeWhile_imp
    have filled : digits ≠ [] := by
      rintro rfl
      cases read
    have digits : Text.IsDigits digits := ⟨filled, digit⟩
    rw [digits.number?_eq, Option.some.injEq] at read
    exact ⟨_, _, _, Text.trims_iff.mpr rfl, dropsMark_iff.mpr split.symm, digits,
      fun c => not_of_head?_dropWhile, read.symm⟩
  · rintro ⟨inner, digits, rest, trims, drops, run, stop, rfl⟩
    rw [Text.trims_iff.mp trims, dropsMark_iff.mp drops, (takeWhile_run run.digit stop).1,
      run.number?_eq]

end ServiceIdl
