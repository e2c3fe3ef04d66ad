import Mathlib.Logic.Relation
import ServiceIdl.Proofs.Peg.Completeness

/-!
# The calls of a run

To match an expression, a run matches others, at the same place or behind what it has
matched so far. `Calls` is this relation between a call and the calls it makes, with exactly
the premises of the branch of `run` that makes them: a second item is called behind a match
of the first one, and a second alternative behind a failure of the first.

A run that is exhausted has made a call that is (`Calls.exists_of_exhausted`), so a run ends
if its calls cannot go on for ever. A call stands where its caller stands or later in the
same text (`Calls.passes`).
-/

namespace ServiceIdl.Peg

open Text (byteLength)

variable {ρ : Type} {g : Grammar ρ}

/-- That an expression is to be matched in a context and a state. -/
structure Call (ρ : Type) where
  ctx : Context
  expr : Expr ρ
  state : State ρ

/-- The call is that of a repetition, with rounds of this expression. -/
def Call.Repeats (c : Call ρ) (e : Expr ρ) : Prop :=
  c.expr = .star e ∨ ∃ gap, c.expr = .many gap e

/-- `Calls g c d`: a run of `c` makes the call `d`. -/
inductive Calls (g : Grammar ρ) : Call ρ → Call ρ → Prop
  | rule {ctx : Context} {name : ρ} {s : State ρ} :
    Calls g ⟨ctx, .rule name, s⟩
      ⟨⟨(g.modifier name).inner ctx.mode, ctx.polarity⟩, g.body name,
        if ctx.traces ((g.modifier name).outer ctx.mode) then { s with trail := [] } else s⟩
  | first {ctx : Context} {gap : Gap} {first second : Expr ρ} {s : State ρ} :
    Calls g ⟨ctx, .seq gap first second, s⟩ ⟨ctx, first, s⟩
  | trivia {ctx : Context} {gap : Gap} {first second : Expr ρ} {s t : State ρ} {fuel : Nat} :
    gap = .loose ∧ ctx.mode = .loose → run g fuel ctx first s = .matched t →
    Calls g ⟨ctx, .seq gap first second, s⟩ ⟨ctx, g.trivia, t⟩
  | behindTrivia {ctx : Context} {gap : Gap} {first second : Expr ρ} {s t u : State ρ}
      {fuel : Nat} :
    gap = .loose ∧ ctx.mode = .loose → run g fuel ctx first s = .matched t →
    run g fuel ctx g.trivia t = .matched u →
    Calls g ⟨ctx, .seq gap first second, s⟩ ⟨ctx, second, u⟩
  | second {ctx : Context} {gap : Gap} {first second : Expr ρ} {s t : State ρ} {fuel : Nat} :
    ¬ (gap = .loose ∧ ctx.mode = .loose) → run g fuel ctx first s = .matched t →
    Calls g ⟨ctx, .seq gap first second, s⟩ ⟨ctx, second, t⟩
  | left {ctx : Context} {first second : Expr ρ} {s : State ρ} :
    Calls g ⟨ctx, .choice first second, s⟩ ⟨ctx, first, s⟩
  | right {ctx : Context} {first second : Expr ρ} {s : State ρ} {a : Attempts ρ} {fuel : Nat} :
    run g fuel ctx first s = .failed a →
    Calls g ⟨ctx, .choice first second, s⟩ ⟨ctx, second, { s with attempts := a }⟩
  | round {ctx : Context} {e : Expr ρ} {s : State ρ} :
    Calls g ⟨ctx, .star e, s⟩ ⟨ctx, e, s⟩
  | again {ctx : Context} {e : Expr ρ} {s t : State ρ} {fuel : Nat} :
    run g fuel ctx e s = .matched t → Calls g ⟨ctx, .star e, s⟩ ⟨ctx, .star e, t⟩
  | absent {ctx : Context} {e : Expr ρ} {s : State ρ} :
    Calls g ⟨ctx, .not e, s⟩ ⟨⟨ctx.mode, ctx.polarity.flip⟩, e, s⟩

/-- A run that is exhausted has made a call that is exhausted. -/
theorem Calls.exists_of_exhausted {fuel : Nat} {ctx : Context} {e : Expr ρ} {s : State ρ}
    (exhausted : run g (fuel + 1) ctx e s = .exhausted) :
    ∃ c, Calls g ⟨ctx, e, s⟩ c ∧ run g fuel c.ctx c.expr c.state = .exhausted := by
  cases e with
  | empty => cases exhausted
  | start =>
    simp only [run] at exhausted
    split at exhausted <;> cases exhausted
  | finish =>
    simp only [run] at exhausted
    split at exhausted <;> cases exhausted
  | char members =>
    simp only [run] at exhausted
    split at exhausted
    · cases exhausted
    · split at exhausted <;> cases exhausted
  | literal text =>
    simp only [run] at exhausted
    split at exhausted <;> cases exhausted
  | rule name =>
    simp only [run] at exhausted
    split at exhausted
    · cases exhausted
    · cases exhausted
    · rename_i inner
      exact ⟨_, .rule, inner⟩
  | seq gap first second =>
    simp only [run] at exhausted
    split at exhausted
    · rename_i t front
      split at exhausted
      · rename_i loose
        split at exhausted
        · rename_i u skipped
          exact ⟨_, .behindTrivia loose front skipped, exhausted⟩
        · exact ⟨_, .trivia loose front, exhausted⟩
      · rename_i tight
        exact ⟨_, .second tight front, exhausted⟩
    · exact ⟨_, .first, exhausted⟩
  | choice first second =>
    simp only [run] at exhausted
    split at exhausted
    · rename_i a front
      exact ⟨_, .right front, exhausted⟩
    · exact ⟨_, .left, exhausted⟩
  | star round =>
    simp only [run] at exhausted
    split at exhausted
    · rename_i t front
      exact ⟨_, .again front, exhausted⟩
    · cases exhausted
    · rename_i inner
      exact ⟨_, .round, inner⟩
  | not e =>
    simp only [run] at exhausted
    split at exhausted
    · cases exhausted
    · cases exhausted
    · rename_i inner
      exact ⟨_, .absent, inner⟩

/-! ## Where calls stand -/

/-- What a run matches has a derivation, also inside of lookaheads. -/
theorem exists_derives_of_run {fuel : Nat} {ctx : Context} {e : Expr ρ} {s t : State ρ}
    (matched : run g fuel ctx e s = .matched t) :
    ∃ read trace, s.rest = read ++ t.rest ∧ t.offset = s.offset + byteLength read ∧
      Derives g ctx.mode e s.offset read t.rest trace := by
  -- The run outside of lookaheads agrees with this one.
  have agrees := run_agrees (g := g) fuel ctx.mode ctx.polarity .plain e
    (State.Level.mk rfl rfl : s.Level s)
  rw [matched] at agrees
  generalize plain : run g fuel ⟨ctx.mode, .plain⟩ e s = outcome at agrees
  cases agrees with
  | @matched _ u level =>
    obtain ⟨read, trace, advances, derives⟩ := Matches.of_run plain
    rw [level.rest, level.offset]
    exact ⟨read, trace, advances.rest, advances.offset, derives⟩

/-- The second state stands behind `read` in the text of the first. -/
structure State.Passes (s t : State ρ) (read : List Char) : Prop where
  rest : s.rest = read ++ t.rest
  offset : t.offset = s.offset + byteLength read

namespace State.Passes

variable {s t u : State ρ} {a b : List Char}

theorem refl (s : State ρ) : s.Passes s [] := ⟨rfl, rfl⟩

theorem trans (first : s.Passes t a) (second : t.Passes u b) : s.Passes u (a ++ b) := by
  constructor
  · rw [first.rest, second.rest, List.append_assoc]
  · rw [second.offset, first.offset, Text.byteLength_append, Nat.add_assoc]

theorem of_run {fuel : Nat} {ctx : Context} {e : Expr ρ}
    (matched : run g fuel ctx e s = .matched t) : ∃ read, s.Passes t read := by
  obtain ⟨read, trace, rest, offset, -⟩ := exists_derives_of_run matched
  exact ⟨read, rest, offset⟩

/-- Behind a text that is shorter, the offset is higher. -/
theorem offset_lt (passes : s.Passes t a) (shorter : t.rest.length < s.rest.length) :
    s.offset < t.offset := by
  cases a with
  | nil =>
    rw [passes.rest] at shorter
    exact absurd shorter (Nat.lt_irrefl _)
  | cons c a =>
    have positive := c.utf8Size_pos
    rw [passes.offset, byteLength]
    omega

end State.Passes

/-- A call stands where its caller does, or behind it. -/
theorem Calls.passes {c d : Call ρ} (calls : Calls g c d) :
    ∃ read, c.state.Passes d.state read := by
  cases calls with
  | @rule ctx name s =>
    refine ⟨[], ?_, ?_⟩
    · dsimp only
      split <;> rfl
    · dsimp only
      split <;> rfl
  | first | left | round | absent => exact ⟨[], .refl _⟩
  | right => exact ⟨[], rfl, rfl⟩
  | trivia _ front | second _ front | again front => exact State.Passes.of_run front
  | behindTrivia _ front skipped =>
    obtain ⟨a, passed⟩ := State.Passes.of_run front
    obtain ⟨b, skips⟩ := State.Passes.of_run skipped
    exact ⟨a ++ b, passed.trans skips⟩

/-- A chain of calls passes some text, from the state of the first call to that of the last. -/
theorem Calls.passes_of_reflTransGen {c d : Call ρ} (chain : Relation.ReflTransGen (Calls g) c d) :
    ∃ read, c.state.Passes d.state read := by
  induction chain with
  | refl => exact ⟨[], .refl _⟩
  | tail _ calls ih =>
    obtain ⟨a, earlier⟩ := ih
    obtain ⟨b, last⟩ := calls.passes
    exact ⟨a ++ b, earlier.trans last⟩

end ServiceIdl.Peg
