/-!
# Parsing expressions

The expressions of a grammar with ordered choice over rules of a type `ρ`. A
rule has a modifier besides its body: it says whether trivia (blanks and
comments) may stand between the items of the body.

Two items of a sequence, and two rounds of a repetition, are joined by a `Gap`.
A loose gap lets trivia in wherever the mode is loose, a tight one never does.
Only `empty`, `seq`, `choice`, `star` and `not` are primitive; an option and the
repetitions of a grammar with gaps are written in terms of them.
-/

namespace ServiceIdl.Peg

/-- The classes of characters that an expression can ask for. -/
inductive CharClass where
  | any
  | digit
  | letter
  | letterOrDigit
deriving DecidableEq, Repr

/-- Membership in a class. Letters and digits are those of ASCII. -/
def CharClass.contains : CharClass → Char → Bool
  | .any, _ => true
  | .digit, c => c.isDigit
  | .letter, c => c.isAlpha
  | .letterOrDigit, c => c.isAlphanum

/-- What may stand between two items. -/
inductive Gap where
  /-- Trivia, in loose mode. -/
  | loose
  /-- Nothing. -/
  | tight
deriving DecidableEq, Repr

/-- A parsing expression over the rules `ρ`. -/
inductive Expr (ρ : Type) where
  /-- Matches the empty text. -/
  | empty
  /-- Matches at the start of the document. -/
  | start
  /-- Matches at the end of the document. -/
  | finish
  /-- Matches one character of a class. -/
  | char (members : CharClass)
  | literal (text : List Char)
  | rule (name : ρ)
  | seq (gap : Gap) (first second : Expr ρ)
  /-- The second expression counts only where the first fails. -/
  | choice (first second : Expr ρ)
  /-- Matches as many rounds as there are, with nothing between them. -/
  | star (round : Expr ρ)
  /-- Matches the empty text where the expression fails. -/
  | not (absent : Expr ρ)
deriving DecidableEq, Repr

namespace Expr

variable {ρ : Type}

/-- An expression or nothing. -/
def opt (e : Expr ρ) : Expr ρ := .choice e .empty

/-- Any number of rounds with gaps between them. The gap before a round that
fails is not taken. -/
def many (gap : Gap) (e : Expr ρ) : Expr ρ := opt (.seq .tight e (.star (.seq gap .empty e)))

/-- At least one round, with gaps between the rounds. -/
def many1 (gap : Gap) (e : Expr ρ) : Expr ρ := .seq gap e (many gap e)

/-- The items one after the other with gaps between them. -/
def items (gap : Gap) : List (Expr ρ) → Expr ρ
  | [] => .empty
  | [e] => e
  | e :: rest => .seq gap e (items gap rest)

/-- The first of the alternatives that matches. -/
def oneOf : List (Expr ρ) → Expr ρ
  | [] => .not .empty
  | [e] => e
  | e :: rest => .choice e (oneOf rest)

end Expr

/-- How the items of a document's text are separated at a place of a match. -/
inductive Mode where
  /-- Loose gaps let trivia in. -/
  | loose
  /-- No trivia, and rules leave no trace. -/
  | atomic
  /-- No trivia, but rules leave their trace. -/
  | compound
deriving DecidableEq, Repr

/-- How a rule changes the mode. -/
inductive Modifier where
  /-- The rule and its body keep the mode. -/
  | plain
  /-- The rule keeps the mode and its body is atomic. -/
  | atomic
  /-- The rule and its body are compound. -/
  | compound
deriving DecidableEq, Repr

/-- The mode in which a rule itself is recorded. -/
def Modifier.outer : Modifier → Mode → Mode
  | .compound, _ => .compound
  | _, mode => mode

/-- The mode in which the body of a rule is matched. -/
def Modifier.inner : Modifier → Mode → Mode
  | .plain, mode => mode
  | .atomic, _ => .atomic
  | .compound, _ => .compound

/-- A grammar over the rules `ρ`, with the two rules that make up trivia. -/
structure Grammar (ρ : Type) where
  body : ρ → Expr ρ
  modifier : ρ → Modifier
  blank : ρ
  comment : ρ

/-- Blanks, and any number of comments with blanks behind each. -/
def Grammar.trivia {ρ : Type} (g : Grammar ρ) : Expr ρ :=
  .seq .tight (.star (.rule g.blank))
    (.star (.seq .tight (.rule g.comment) (.star (.rule g.blank))))

end ServiceIdl.Peg
