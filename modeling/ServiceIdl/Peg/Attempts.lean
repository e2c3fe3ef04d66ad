import ServiceIdl.Peg.Expr

/-!
# What was tried where a match got farthest

A match that fails is explained by the rules tried at the farthest offset that
any of them reached: those that were wanted there, and those that a negative
lookahead did not want. `Attempts.note` keeps this record. A rule that fails
replaces the rules tried on its behalf at its own start, unless that was exactly
one: then the more precise name stays.
-/

namespace ServiceIdl.Peg

/-- Whether an expression is wanted or not, by the lookaheads around it. -/
inductive Polarity where
  /-- Outside all lookaheads. -/
  | plain
  /-- Within a negative lookahead. -/
  | negative
  /-- Within a negative lookahead that is itself negated. -/
  | positive
deriving DecidableEq, Repr

/-- The polarity within a negative lookahead. -/
def Polarity.flip : Polarity → Polarity
  | .plain => .negative
  | .negative => .positive
  | .positive => .negative

/-- The rules tried at the farthest offset, in the order of their failures. -/
structure Attempts (ρ : Type) where
  offset : Nat
  wanted : List ρ
  unwanted : List ρ
deriving DecidableEq, Repr

/-- The state of the record when a rule began. -/
structure Mark where
  wanted : Nat
  unwanted : Nat
  /-- How many rules were on record at the offset of the rule. -/
  count : Nat

namespace Attempts

variable {ρ : Type}

/-- Nothing was tried yet. -/
def initial : Attempts ρ := ⟨0, [], []⟩

/-- The number of rules on record for an offset. -/
def countAt (a : Attempts ρ) (offset : Nat) : Nat :=
  if a.offset = offset then a.wanted.length + a.unwanted.length else 0

/-- The mark of a rule that begins at an offset. -/
def mark (a : Attempts ρ) (offset : Nat) : Mark :=
  if a.offset = offset then ⟨a.wanted.length, a.unwanted.length, a.countAt offset⟩
  else ⟨0, 0, 0⟩

/-- Records that a rule which began at `offset`, with the mark `m`, had the
outcome that was not wanted of it. Atomic mode records nothing. -/
def note (a : Attempts ρ) (mode : Mode) (polarity : Polarity) (name : ρ) (offset : Nat)
    (m : Mark) : Attempts ρ :=
  if mode = .atomic ∨ a.countAt offset = m.count + 1 ∨ offset < a.offset then a
  else
    let wanted := if offset = a.offset then a.wanted.take m.wanted else []
    let unwanted := if offset = a.offset then a.unwanted.take m.unwanted else []
    if polarity = .negative then ⟨offset, wanted, unwanted ++ [name]⟩
    else ⟨offset, wanted ++ [name], unwanted⟩

end Attempts

end ServiceIdl.Peg
