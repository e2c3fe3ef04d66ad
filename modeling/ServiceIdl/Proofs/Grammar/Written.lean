import ServiceIdl.Grammar.Table
import ServiceIdl.Proofs.Peg.Sight
import ServiceIdl.Proofs.Text.Escape

/-!
# Written words are matched

The words of JSON are words of the document grammar: a quoted text is matched up to its
closing quote, whatever it says (`Rule.derives_quotedText`), an integer up to the first
character that cannot go on with it (`Rule.derives_number`), and so is a keyword. An
empty text does not begin a text block, because what follows a value is never a quote
(`Rule.fails_textBlock`).
-/

namespace ServiceIdl

open Peg (CharClass Expr Gap Mode Derives Fails)
open Text (byteLength)

/-! ## Runs of one kind -/

namespace Peg

variable {ρ : Type} {g : Grammar ρ} {mode : Mode} {gap : Gap} {e first second : Expr ρ}
  {offset : Nat} {read rest : List Char}

/-- The second of two items may match the empty text. -/
theorem Derives.beforeNothing (closed : ¬ (gap = .loose ∧ mode = .loose))
    (front : Derives g mode first offset read rest [])
    (behind : Derives g mode second (offset + byteLength read) [] rest []) :
    Derives g mode (.seq gap first second) offset read rest [] := by
  have both := Derives.tight closed front behind
  rwa [List.append_nil] at both

/-- Pieces that are rounds wherever they stand are repeated up to where no round begins. -/
theorem Derives.star_of_pieces (gap : Gap) (dense : mode ≠ .loose) {pieces : List (List Char)}
    (each : ∀ piece ∈ pieces, ∀ offset behind, Derives g mode e offset piece behind [])
    (stop : ∀ offset, Fails g mode e offset rest) (offset : Nat) :
    Derives g mode (.star (.seq gap .empty e)) offset pieces.flatten rest [] := by
  have closed : ¬ (gap = .loose ∧ mode = .loose) := fun both => dense both.2
  induction pieces generalizing offset with
  | nil =>
    have failing : Fails g mode (.seq gap .empty e) offset rest :=
      .inSecond closed .empty (stop (offset + byteLength []))
    exact .stop failing
  | cons piece pieces ih =>
    have head := each piece List.mem_cons_self
    have others := ih fun other later => each other (List.mem_cons_of_mem piece later)
    have round : Derives g mode (.seq gap .empty e) offset ([] ++ piece)
        (pieces.flatten ++ rest) ([] ++ []) :=
      .tight closed .empty (head (offset + byteLength []) (pieces.flatten ++ rest))
    exact .round round (others (offset + byteLength piece))

/-- A repetition reads a list of pieces when its body reads each and fails behind the last. -/
theorem Derives.many_of_pieces (dense : mode ≠ .loose) {pieces : List (List Char)}
    (each : ∀ piece ∈ pieces, ∀ offset behind, Derives g mode e offset piece behind [])
    (stop : ∀ offset, Fails g mode e offset rest) (offset : Nat) :
    Derives g mode (.many gap e) offset pieces.flatten rest [] := by
  cases pieces with
  | nil => exact .right (.inFirst (stop offset)) .empty
  | cons piece pieces =>
    have head := each piece List.mem_cons_self offset (pieces.flatten ++ rest)
    have others := star_of_pieces gap dense
      (fun other later => each other (List.mem_cons_of_mem piece later)) stop
      (offset + byteLength piece)
    exact .left (.tight (by simp) head others)

/-- Characters of a class are repeated up to one that is none. -/
theorem Derives.many_char (dense : mode ≠ .loose) {members : CharClass}
    (belongs : ∀ c ∈ read, members.contains c = true)
    (stop : ∀ c, rest.head? = some c → members.contains c = false) (offset : Nat) :
    Derives g mode (.many gap (.char members)) offset read rest [] := by
  have each : ∀ piece ∈ read.map fun c => [c], ∀ offset behind,
      Derives g mode (.char members) offset piece behind [] := by
    intro piece member offset behind
    obtain ⟨c, inside, rfl⟩ := List.mem_map.mp member
    exact .char (belongs c inside)
  have pieces : Derives g mode (.many gap (.char members)) offset (read.map fun c => [c]).flatten
      rest [] :=
    many_of_pieces dense each (fun _ => .char stop) offset
  rwa [← List.flatMap_def, List.flatMap_singleton'] at pieces

/-- A repeated class reads a text of its characters, up to the first character outside of it. -/
theorem Derives.many1_char (dense : mode ≠ .loose) {members : CharClass} (filled : read ≠ [])
    (belongs : ∀ c ∈ read, members.contains c = true)
    (stop : ∀ c, rest.head? = some c → members.contains c = false) (offset : Nat) :
    Derives g mode (.many1 gap (.char members)) offset read rest [] := by
  cases read with
  | nil => exact absurd rfl filled
  | cons c read =>
    have others : Derives g mode (.many gap (.char members)) (offset + byteLength [c]) read rest
        [] :=
      many_char dense (fun d later => belongs d (List.mem_cons_of_mem c later)) stop _
    exact .tight (fun both => dense both.2) (.char (belongs c List.mem_cons_self)) others

end Peg

/-! ## What follows a value -/

/-- What can stand behind a value of a written document: the end, or one of the
characters that go on with a list or a record. -/
def closers : List (Option Char) := [none, some ',', some '\n', some ']', some '\x7d']

/-- The text goes on as it does behind a value. -/
def Closes (rest : List Char) : Prop := rest.head? ∈ closers

namespace Rule

variable {offset : Nat} {rest : List Char}

/-! ## Quoted texts -/

/-- Every piece of a JSON string is one character of a quoted text. -/
theorem derives_quotedChar {piece : List Char} (one : Json.IsPiece piece) (offset : Nat)
    (behind : List Char) : Derives documentGrammar .atomic quotedChar offset piece behind [] := by
  rcases one with ⟨c, rfl⟩ | ⟨c, noQuote, noMark, rfl⟩
  · exact .left (.tight (by simp) .literal (.char rfl))
  · have unmarked : Fails documentGrammar .atomic (inOrder [text "\\", .char .any]) offset
        ([c] ++ behind) :=
      .inFirst (.literal (by simp [Ne.symm noMark]))
    have unquoted : Fails documentGrammar .atomic (oneOfTexts ["\"", "\\"]) offset
        ([c] ++ behind) :=
      .choice (.literal (by simp [Ne.symm noQuote])) (.literal (by simp [Ne.symm noMark]))
    exact .right unmarked (.tight (by simp) (.absent unquoted) (.char rfl))

/-- The closing quote is no character of the text. -/
theorem fails_quotedChar (offset : Nat) :
    Fails documentGrammar .atomic quotedChar offset ('"' :: rest) := by
  have quote : Derives documentGrammar .atomic (oneOfTexts ["\"", "\\"]) offset ['"'] rest [] :=
    .left .literal
  exact .choice (.inFirst (.literal (by simp))) (.inFirst (.not quote))

/-- A quoted text is matched, whatever it says and whatever follows. -/
theorem derives_quotedText (text : String) :
    Derives documentGrammar .atomic quotedText.body offset (Json.quote text) rest [] := by
  obtain ⟨pieces, escaped, each⟩ := Json.exists_pieces text.toList
  have inner : Derives documentGrammar .atomic (many quotedChar) (offset + byteLength ['"'])
      pieces.flatten (['"'] ++ rest) [] :=
    .many_of_pieces (by simp) (fun piece member => derives_quotedChar (each piece member))
      fails_quotedChar _
  rw [Json.quote, escaped]
  exact .tight (by simp) .literal (.tight (by simp) inner .literal)

/-- A quoted text is no text block, because no quote follows it. -/
theorem fails_textBlock {mode : Mode} (text : String) (closes : Closes rest) :
    Fails documentGrammar mode (.rule textBlock) offset (Json.quote text ++ rest) := by
  refine .rule (.inFirst (.literal ?_))
  rintro ⟨behind, same⟩
  cases written : text.toList with
  | nil =>
    rw [Json.quote, written] at same
    have third : rest = '"' :: behind := by simpa using same.symm
    have quoted : some '"' ∉ closers := by decide
    rw [Closes, third] at closes
    exact quoted closes
  | cons c more =>
    obtain ⟨d, others, escaped, noQuote⟩ := Json.exists_cons_of_escape c
    rw [Json.quote, written, List.flatMap_cons, escaped] at same
    have second : '"' = d := by
      have fronts := congrArg (fun text => text[1]?) same
      simpa using fronts
    exact noQuote second.symm

/-! ## Numbers -/

/-- The fraction of a number, which may be absent. -/
def fraction : Expr Rule := .opt (inOrder [text ".", many1 (.char .digit)])

/-- The exponent of a number, which may be absent. -/
def exponent : Expr Rule :=
  .opt (inOrder [oneOfTexts ["e", "E"], .opt (oneOfTexts ["+", "-"]), many1 (.char .digit)])

/-- Behind the digits of an integer there is neither a fraction nor an exponent. -/
theorem derives_fraction_exponent (closes : Closes rest) :
    Derives documentGrammar .atomic (inOrder [fraction, exponent]) offset [] rest [] := by
  have checked : ∀ next ∈ closers, (documentGrammar.sight next 0 fraction).skips = true ∧
      (documentGrammar.sight next 0 exponent).skips = true := by
    decide
  obtain ⟨noFraction, noExponent⟩ := checked _ closes
  have front := (documentGrammar.holds_sight _ _ _).derives noFraction .atomic offset rest rfl
  have behind := (documentGrammar.holds_sight _ _ _).derives noExponent .atomic
    (offset + byteLength []) rest rfl
  exact .tight (by simp) front behind

/-- Digits are matched up to their end, with what may stand behind them in a number. -/
theorem derives_digits {digits : List Char} (run : Text.IsDigits digits) (closes : Closes rest)
    (offset : Nat) :
    Derives documentGrammar .atomic (inOrder [many1 (.char .digit), fraction, exponent]) offset
      digits rest [] := by
  have belongs : ∀ c ∈ digits, CharClass.digit.contains c = true := run.digit
  have stop : ∀ c, rest.head? = some c → CharClass.digit.contains c = false := by
    intro c head
    have checked : ∀ next ∈ closers, next.all (fun c => !CharClass.digit.contains c) = true := by
      decide
    have other := checked _ closes
    rw [head] at other
    change (!CharClass.digit.contains c) = true at other
    exact (Bool.not_eq_true' _).mp other
  have matched : Derives documentGrammar .atomic (many1 (.char .digit)) offset digits rest [] :=
    .many1_char (by simp) run.ne_nil belongs stop offset
  exact .beforeNothing (by simp) matched (derives_fraction_exponent closes)

/-- An integer is matched up to its last digit. -/
theorem derives_number (n : Int) (closes : Closes rest) :
    Derives documentGrammar .atomic number.body offset (Decimal.write n) rest [] := by
  cases n with
  | ofNat n =>
    have run := Text.isDigits_toDigits n
    obtain ⟨c, more, written, digit⟩ := Decimal.exists_cons_of_isDigits run
    have unsigned : Derives documentGrammar .atomic (.opt (text "-")) offset []
        (Nat.toDigits 10 n ++ rest) [] := by
      refine .right (.literal ?_) .empty
      rw [written]
      rintro ⟨behind, same⟩
      cases same
      cases digit
    exact .tight (by simp) unsigned (derives_digits run closes _)
  | negSucc n =>
    have run := Text.isDigits_toDigits (n + 1)
    have digits := derives_digits run closes (offset + byteLength ['-'])
    exact .tight (by simp) (.left .literal) digits

/-! ## Keywords -/

/-- A keyword is matched where no character of a name follows. -/
theorem derives_nodeKeyword {word : String} (listed : word ∈ ["true", "false", "null"])
    (closes : Closes rest) :
    Derives documentGrammar .atomic nodeKeyword.body offset word.toList rest [] := by
  have ended (offset : Nat) :
      Derives documentGrammar .atomic (.not identifierChar) offset [] rest [] := by
    have checked : ∀ next ∈ closers,
        (documentGrammar.sight next 0 identifierChar).refuses = true := by
      decide
    exact .absent ((documentGrammar.holds_sight _ _ _).fails (checked _ closes) _ _ _ rfl)
  have spelled : Derives documentGrammar .atomic (oneOfTexts ["true", "false", "null"]) offset
      word.toList rest [] := by
    simp only [List.mem_cons, List.not_mem_nil, or_false] at listed
    rcases listed with rfl | rfl | rfl
    · exact .left .literal
    · exact .right (.literal (by simp)) (.left .literal)
    · exact .right (.literal (by simp)) (.right (.literal (by simp)) .literal)
  exact .beforeNothing (by simp) spelled (ended _)

end Rule

end ServiceIdl
