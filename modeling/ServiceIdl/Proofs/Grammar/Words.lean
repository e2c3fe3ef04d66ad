import ServiceIdl.Proofs.Decimal.Literal
import ServiceIdl.Proofs.Syntax.Accepted

/-!
# What words look like

Inside an atomic word there is no trivia, so a derivation reads what the items of
the word read and nothing between them. `Expr.Spells` says what an expression reads
there, without offsets; lookaheads, which only narrow it, are forgotten. For numbers
and for the choice among words this is all that the readers need.
-/

namespace ServiceIdl

open Peg (Expr Mode Derives Match)

namespace Peg

variable {ρ : Type}

/-- What an expression reads where there is no trivia. A rule may read anything. -/
def Expr.Spells : Expr ρ → List Char → Prop
  | .char members, read => ∃ c, members.contains c ∧ read = [c]
  | .literal text, read => read = text
  | .rule _, _ => True
  | .seq _ first second, read => ∃ a b, first.Spells a ∧ second.Spells b ∧ read = a ++ b
  | .choice first second, read => first.Spells read ∨ second.Spells read
  | .star round, read =>
    ∃ parts : List (List Char), (∀ part ∈ parts, round.Spells part) ∧ read = parts.flatten
  | .empty, read | .start, read | .finish, read | .not _, read => read = []

/-- What is derived without trivia is spelled by the expression. -/
theorem Derives.spells {g : Grammar ρ} {mode : Mode} {e : Expr ρ} {offset : Nat}
    {read rest : List Char} {trace : List (Match ρ)}
    (derives : Derives g mode e offset read rest trace) (dense : mode ≠ .loose) :
    e.Spells read := by
  induction derives with
  | empty | start | finish | absent | literal => rfl
  | char member => exact ⟨_, member, rfl⟩
  | traced | untraced => exact True.intro
  | tight _ _ _ first second => exact ⟨_, _, first dense, second dense, rfl⟩
  | loose => exact absurd rfl dense
  | left _ ih => exact .inl (ih dense)
  | right _ _ ih => exact .inr (ih dense)
  | stop => exact ⟨[], by simp, rfl⟩
  | round _ _ first second =>
    obtain ⟨parts, spelled, rfl⟩ := second dense
    refine ⟨_ :: parts, ?_, rfl⟩
    intro part member
    rcases List.mem_cons.mp member with rfl | later
    · exact first dense
    · exact spelled part later

/-! ## Repetitions and alternatives -/

/-- What a repetition spells is made of parts that its body spells. -/
theorem Expr.Spells.many {gap : Gap} {e : Expr ρ} {read : List Char}
    (spells : (Expr.many gap e).Spells read) :
    ∃ parts : List (List Char), (∀ part ∈ parts, e.Spells part) ∧ read = parts.flatten := by
  rcases spells with ⟨a, b, first, ⟨rounds, each, rfl⟩, rfl⟩ | rfl
  · refine ⟨a :: rounds, ?_, rfl⟩
    intro part member
    rcases List.mem_cons.mp member with rfl | later
    · exact first
    · obtain ⟨_, c, rfl, spelled, rfl⟩ := each part later
      exact spelled
  · exact ⟨[], by simp, rfl⟩

/-- Rounds of one character spell characters of its class. -/
theorem Expr.Spells.contains_of_many {gap : Gap} {members : CharClass} {read : List Char}
    (spells : (Expr.many gap (.char members) : Expr ρ).Spells read) :
    ∀ c ∈ read, members.contains c = true := by
  obtain ⟨parts, each, rfl⟩ := spells.many
  intro c member
  obtain ⟨part, present, inside⟩ := List.mem_flatten.mp member
  obtain ⟨d, belongs, rfl⟩ := each part present
  rw [List.mem_singleton.mp inside]
  exact belongs

/-- A repeated class spells a text of its characters that is not empty. -/
theorem Expr.Spells.contains_of_many1 {gap : Gap} {members : CharClass} {read : List Char}
    (spells : (Expr.many1 gap (.char members) : Expr ρ).Spells read) :
    read ≠ [] ∧ ∀ c ∈ read, members.contains c = true := by
  rcases spells with ⟨a, b, ⟨c, belongs, rfl⟩, others, rfl⟩
  refine ⟨by simp, ?_⟩
  intro d member
  rcases List.mem_cons.mp member with rfl | later
  · exact belongs
  · exact others.contains_of_many d later

end Peg

namespace Rule

theorem exists_mem_of_oneOfTexts {words : List String} {read : List Char}
    (spells : (oneOfTexts words).Spells read) (some : words ≠ []) :
    ∃ word ∈ words, read = word.toList := by
  induction words with
  | nil => exact absurd rfl some
  | cons word others ih =>
    cases others with
    | nil => exact ⟨word, List.mem_cons_self, spells⟩
    | cons next others =>
      rcases spells with here | later
      · exact ⟨word, List.mem_cons_self, here⟩
      · obtain ⟨found, member, same⟩ := ih later (by simp)
        exact ⟨found, List.mem_cons_of_mem word member, same⟩

/-! ## Numbers -/

/-- What the rule for numbers spells is a number literal. -/
theorem isLiteral_of_number {read : List Char} (spells : number.body.Spells read) :
    Decimal.IsLiteral read := by
  obtain ⟨sign, _, signed, ⟨whole, _, digits, ⟨fraction, exponent, parted, scaled, rfl⟩, rfl⟩,
    rfl⟩ := spells
  refine ⟨sign, whole, fraction, exponent, rfl, ?_, ⟨digits.contains_of_many1.1,
    digits.contains_of_many1.2⟩, ?_, ?_⟩
  · exact signed.symm
  · rcases parted with ⟨point, decimals, rfl, run, rfl⟩ | rfl
    · exact .inr ⟨decimals, rfl, run.contains_of_many1.1, run.contains_of_many1.2⟩
    · exact .inl rfl
  · rcases scaled with ⟨mark, _, marked, ⟨sign, power, signed, run, rfl⟩, rfl⟩ | rfl
    · have marks : mark = ['e'] ∨ mark = ['E'] := marked
      have signs : (sign = ['+'] ∨ sign = ['-']) ∨ sign = [] := signed
      have digits : Text.IsDigits power := ⟨run.contains_of_many1.1, run.contains_of_many1.2⟩
      have ordered : sign = [] ∨ sign = ['+'] ∨ sign = ['-'] := signs.symm
      rcases marks with rfl | rfl
      · exact .inr ⟨'e', sign, power, rfl, .inl rfl, ordered, digits⟩
      · exact .inr ⟨'E', sign, power, rfl, .inr rfl, ordered, digits⟩
    · exact .inl rfl

end Rule

/-! ## Delimiters -/

/-- The text between two delimiters is determined by what surrounds it. -/
theorem between?_eq_some_iff {delimiter text inner : List Char} :
    between? delimiter text = some inner ↔ text = delimiter ++ (inner ++ delimiter) := by
  rw [between?, Option.bind_eq_some_iff]
  constructor
  · rintro ⟨rest, lead, tail⟩
    rw [Text.dropLead?_eq_some_iff.mp lead, Text.dropTail?_eq_some_iff.mp tail]
  · rintro rfl
    exact ⟨_, Text.dropLead?_eq_some_iff.mpr rfl, Text.dropTail?_eq_some_iff.mpr rfl⟩

end ServiceIdl
