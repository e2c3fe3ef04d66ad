import ServiceIdl.Proofs.Peg.Derivation

/-!
# What a run wants

A rule is recorded as not wanted if it matches within a negative lookahead. If the lookaheads
of a grammar call no rules, this never happens: what is on record are rules that were wanted,
and nothing is on record only before the first of them has failed (`Attempts.IsWanting`). Every
step of a run keeps this (`Outcome.Records.run`), since a rule that fails replaces what was
tried on its behalf by itself and never by nothing. So if a rule fails that was called first
and outside atomic words, at least one rule was wanted (`wanted_ne_nil_of_run`).
-/

namespace ServiceIdl.Peg

variable {ρ : Type} {g : Grammar ρ}

/-! ## Lookaheads without rules -/

namespace Expr

/-- Whether an expression calls no rules, those of trivia included. -/
def isRuleless : Expr ρ → Bool
  | .rule _ => false
  | .seq gap first second => gap = .tight && first.isRuleless && second.isRuleless
  | .choice first second => first.isRuleless && second.isRuleless
  | .star round => round.isRuleless
  | .not absent => absent.isRuleless
  | _ => true

/-- Whether no rule is called within a lookahead of an expression. -/
def looksAheadRuleless : Expr ρ → Bool
  | .seq _ first second => first.looksAheadRuleless && second.looksAheadRuleless
  | .choice first second => first.looksAheadRuleless && second.looksAheadRuleless
  | .star round => round.looksAheadRuleless
  | .not absent => absent.isRuleless
  | _ => true

end Expr

/-- The record of attempts that an outcome leaves is of a kind. -/
def Outcome.Records (kind : Attempts ρ → Prop) : Outcome ρ → Prop
  | .matched s => kind s.attempts
  | .failed a => kind a
  | .exhausted => True

/-- Reading a literal leaves the attempts as they are. -/
theorem State.attempts_of_literal? {text : List Char} {s t : State ρ}
    (found : s.literal? text = some t) : t.attempts = s.attempts := by
  rw [(State.literal?_eq_some_iff.mp found).2]

/-- Where no rule is called, nothing is recorded. -/
theorem records_of_isRuleless {fuel : Nat} {ctx : Context} {e : Expr ρ} {s : State ρ}
    (ruleless : e.isRuleless = true) :
    (run g fuel ctx e s).Records (· = s.attempts) := by
  induction fuel generalizing ctx e s with
  | zero => exact trivial
  | succ fuel ih =>
    cases e with
    | empty => exact rfl
    | start | finish =>
      simp only [run]
      split <;> exact rfl
    | char members =>
      simp only [run]
      split
      · exact rfl
      · split <;> exact rfl
    | literal text =>
      simp only [run]
      split
      · rename_i t found
        exact State.attempts_of_literal? found
      · exact rfl
    | rule name => cases ruleless
    | seq gap first second =>
      simp only [Expr.isRuleless, Bool.and_eq_true, decide_eq_true_eq] at ruleless
      obtain ⟨⟨rfl, front⟩, behind⟩ := ruleless
      have before : (run g fuel ctx first s).Records (· = s.attempts) := ih front
      simp only [run]
      cases outcome : run g fuel ctx first s with
      | failed | exhausted =>
        rw [outcome] at before
        exact before
      | matched t =>
        rw [outcome] at before
        have same : t.attempts = s.attempts := before
        simp only [reduceCtorEq, false_and, ↓reduceIte]
        rw [← same]
        exact ih behind
    | choice first second =>
      simp only [Expr.isRuleless, Bool.and_eq_true] at ruleless
      have before : (run g fuel ctx first s).Records (· = s.attempts) := ih ruleless.1
      simp only [run]
      cases outcome : run g fuel ctx first s with
      | matched | exhausted =>
        rw [outcome] at before
        exact before
      | failed a =>
        rw [outcome] at before
        have same : a = s.attempts := before
        rw [same]
        exact ih ruleless.2
    | star round =>
      have before : (run g fuel ctx round s).Records (· = s.attempts) := ih ruleless
      simp only [run]
      cases outcome : run g fuel ctx round s with
      | failed | exhausted =>
        rw [outcome] at before
        exact before
      | matched t =>
        rw [outcome] at before
        have same : t.attempts = s.attempts := before
        simp only
        rw [← same]
        exact ih (e := .star round) ruleless
    | not absent =>
      have inside : (run g fuel ⟨ctx.mode, ctx.polarity.flip⟩ absent s).Records
          (· = s.attempts) := ih ruleless
      simp only [run]
      cases outcome : run g fuel ⟨ctx.mode, ctx.polarity.flip⟩ absent s <;>
        (rw [outcome] at inside; exact inside)

/-! ## Wanted rules -/

/-- No rule is on record as not wanted, and behind the start of the text some rule is on record
as wanted. -/
structure Attempts.IsWanting (a : Attempts ρ) : Prop where
  unwanted : a.unwanted = []
  wanted : 0 < a.offset → a.wanted ≠ []

namespace Attempts.IsWanting

variable {a : Attempts ρ}

theorem initial : (initial : Attempts ρ).IsWanting := ⟨rfl, fun behind => nomatch behind⟩

/-- A rule that was wanted takes the place of what was tried on its behalf. -/
theorem note (wanting : a.IsWanting) (mode : Mode) {polarity : Polarity}
    (outside : polarity ≠ .negative) (name : ρ) (offset : Nat) (m : Mark) :
    (a.note mode polarity name offset m).IsWanting := by
  unfold Attempts.note
  split
  · exact wanting
  · simp only
    refine ⟨?_, fun _ => by simp⟩
    split
    · rw [wanting.unwanted, List.take_nil]
    · rfl

/-- A rule that fails outside atomic words leaves a rule on record that was wanted, if nothing
was on record at its offset when it began. -/
theorem wanted_note_ne_nil (wanting : a.IsWanting) {mode : Mode} (visible : mode ≠ .atomic)
    {polarity : Polarity} (outside : polarity ≠ .negative) (name : ρ) (offset : Nat) {m : Mark}
    (fresh : m.count = 0) : (a.note mode polarity name offset m).wanted ≠ [] := by
  unfold Attempts.note
  split
  · rename_i kept
    rcases kept with atomic | one | farther
    · exact absurd atomic visible
    · rw [fresh, countAt] at one
      split at one
      · intro none
        rw [none, wanting.unwanted] at one
        cases one
      · cases one
    · exact wanting.wanted (Nat.zero_lt_of_lt farther)
  · simp

end Attempts.IsWanting

/-- No lookahead of the grammar calls a rule. -/
def Grammar.LooksAheadRuleless (g : Grammar ρ) : Prop :=
  ∀ name, (g.body name).looksAheadRuleless = true

/-- Outside of lookaheads, every step of a run records what is wanted. -/
theorem Outcome.Records.run (ruleless : g.LooksAheadRuleless) {fuel : Nat} {ctx : Context}
    (outside : ctx.polarity ≠ .negative) {e : Expr ρ} (below : e.looksAheadRuleless = true)
    {s : State ρ} (wanting : s.attempts.IsWanting) :
    (run g fuel ctx e s).Records Attempts.IsWanting := by
  induction fuel generalizing ctx e s with
  | zero => exact trivial
  | succ fuel ih =>
    cases e with
    | empty => exact wanting
    | start | finish =>
      simp only [Peg.run]
      split <;> exact wanting
    | char members =>
      simp only [Peg.run]
      split
      · exact wanting
      · split <;> exact wanting
    | literal text =>
      simp only [Peg.run]
      split
      · rename_i t found
        have same := State.attempts_of_literal? found
        rw [← same] at wanting
        exact wanting
      · exact wanting
    | rule name =>
      simp only [Peg.run]
      generalize (g.modifier name).outer ctx.mode = outer
      have entered :
          (if ctx.traces outer then { s with trail := [] } else s).attempts.IsWanting := by
        split <;> exact wanting
      have still : (⟨(g.modifier name).inner ctx.mode, ctx.polarity⟩ : Context).polarity ≠
          .negative := outside
      have inside := ih still (ruleless name) entered
      split <;> rename_i outcome <;> rw [outcome] at inside
      · simpa only [Outcome.Records, State.close, if_neg outside] using inside
      · simp only [Outcome.Records, State.fail, if_neg outside]
        exact Attempts.IsWanting.note inside outer outside name s.offset _
      · exact trivial
    | seq gap first second =>
      simp only [Expr.looksAheadRuleless, Bool.and_eq_true] at below
      have front := ih outside below.1 wanting
      simp only [Peg.run]
      cases outcome : Peg.run g fuel ctx first s with
      | failed | exhausted =>
        rw [outcome] at front
        exact front
      | matched t =>
        rw [outcome] at front
        simp only
        split
        · have between := ih outside (e := g.trivia) rfl front
          cases skipped : Peg.run g fuel ctx g.trivia t with
          | failed | exhausted =>
            rw [skipped] at between
            exact between
          | matched u =>
            rw [skipped] at between
            exact ih outside below.2 between
        · exact ih outside below.2 front
    | choice first second =>
      simp only [Expr.looksAheadRuleless, Bool.and_eq_true] at below
      have front := ih outside below.1 wanting
      simp only [Peg.run]
      cases outcome : Peg.run g fuel ctx first s with
      | matched | exhausted =>
        rw [outcome] at front
        exact front
      | failed a =>
        rw [outcome] at front
        exact ih outside below.2 front
    | star round =>
      have front := ih outside (e := round) below wanting
      simp only [Peg.run]
      cases outcome : Peg.run g fuel ctx round s with
      | failed | exhausted =>
        rw [outcome] at front
        exact front
      | matched t =>
        rw [outcome] at front
        exact ih outside (e := .star round) below front
    | not absent =>
      -- A lookahead is within another polarity, but it records nothing.
      have inside : (Peg.run g fuel ⟨ctx.mode, ctx.polarity.flip⟩ absent s).Records
          (· = s.attempts) := records_of_isRuleless below
      simp only [Peg.run]
      cases outcome : Peg.run g fuel ⟨ctx.mode, ctx.polarity.flip⟩ absent s with
      | exhausted => exact trivial
      | matched t =>
        rw [outcome] at inside
        have same : t.attempts = s.attempts := inside
        rw [← same] at wanting
        exact wanting
      | failed a =>
        rw [outcome] at inside
        have same : a = s.attempts := inside
        rw [← same] at wanting
        exact wanting

/-- If the first rule that is called fails, some rules were wanted, and that is all. -/
theorem wanted_ne_nil_of_run (ruleless : g.LooksAheadRuleless) {fuel : Nat} {ctx : Context}
    (outside : ctx.polarity ≠ .negative) {name : ρ}
    (visible : (g.modifier name).outer ctx.mode ≠ .atomic) {s : State ρ}
    (first : s.attempts = .initial) {a : Attempts ρ}
    (failed : run g fuel ctx (.rule name) s = .failed a) : a.unwanted = [] ∧ a.wanted ≠ [] := by
  have start : s.attempts.IsWanting := by
    rw [first]
    exact .initial
  have recorded : (run g fuel ctx (.rule name) s).Records Attempts.IsWanting :=
    .run ruleless outside rfl start
  rw [failed] at recorded
  refine ⟨recorded.unwanted, ?_⟩
  cases fuel with
  | zero => cases failed
  | succ fuel =>
    simp only [run] at failed
    split at failed
    · cases failed
    · rename_i b inner
      cases failed
      have entered : (if ctx.traces ((g.modifier name).outer ctx.mode) then { s with trail := [] }
          else s).attempts.IsWanting := by
        split <;> exact start
      have still : (⟨(g.modifier name).inner ctx.mode, ctx.polarity⟩ : Context).polarity ≠
          .negative := outside
      have inside : (run g fuel _ (g.body name) _).Records Attempts.IsWanting :=
        .run ruleless still (ruleless name) entered
      rw [inner] at inside
      rw [State.fail, if_neg outside]
      refine Attempts.IsWanting.wanted_note_ne_nil inside visible outside name s.offset ?_
      rw [first, Attempts.mark]
      split
      · exact ite_self 0
      · rfl
    · cases failed

end ServiceIdl.Peg
