import ServiceIdl.Peg.Run
import ServiceIdl.Proofs.Text.Places

/-!
# How far a run gets

A run stays within its text: what is left to read follows the offset that it has reached,
and every attempt on record was made between two characters (`State.Spans`). So a text is
rejected between two of its characters or at one of its ends (`State.Spans.run`).
-/

namespace ServiceIdl.Peg

open Text (Follows IsBoundary)

variable {ρ : Type} {g : Grammar ρ}

/-- A note is made at the offset of its rule, or the record stays as it was. -/
theorem Attempts.isBoundary_note {text : List Char} {a : Attempts ρ} {mode : Mode}
    {polarity : Polarity} {name : ρ} {offset : Nat} {m : Mark}
    (attempted : IsBoundary text a.offset) (here : IsBoundary text offset) :
    IsBoundary text (a.note mode polarity name offset m).offset := by
  unfold note
  split
  · exact attempted
  · simp only
    split
    · exact here
    · exact here

/-- A place in a text, with a record of an attempt at such a place. -/
structure State.Spans (text : List Char) (s : State ρ) : Prop where
  place : Follows text s.offset s.rest
  attempts : IsBoundary text s.attempts.offset

/-- An outcome at a place in a text. -/
def Outcome.Spans (text : List Char) : Outcome ρ → Prop
  | .matched s => s.Spans text
  | .failed a => IsBoundary text a.offset
  | .exhausted => True

namespace State.Spans

variable {text : List Char} {s t : State ρ}

/-- The attempts may be replaced by others at a boundary of the text. -/
theorem retry (spans : s.Spans text) {a : Attempts ρ} (attempts : IsBoundary text a.offset) :
    State.Spans text { s with attempts := a } :=
  ⟨spans.place, attempts⟩

/-- Behind a character the state is at a place of the text again. -/
theorem advance (spans : s.Spans text) {c : Char} {rest : List Char} (ahead : s.rest = c :: rest) :
    (s.advance c rest).Spans text := by
  have place : Follows text s.offset ([c] ++ rest) := by
    rw [List.singleton_append, ← ahead]
    exact spans.place
  exact ⟨place.skip, spans.attempts⟩

/-- Behind a literal that is found the state is at a place of the text. -/
theorem literal {word : List Char} (spans : s.Spans text) (found : s.literal? word = some t) :
    t.Spans text := by
  induction word generalizing s with
  | nil =>
    cases found
    exact spans
  | cons c word ih =>
    unfold literal? at found
    cases ahead : s.rest with
    | nil =>
      rw [ahead] at found
      cases found
    | cons d rest =>
      rw [ahead] at found
      by_cases same : c = d
      · simp only [if_pos same] at found
        exact ih (spans.advance ahead) found
      · simp only [if_neg same] at found
        cases found

/-- Leaving a rule notes an attempt at the place where it began. -/
theorem close (began : s.Spans text) (ended : t.Spans text) (ctx : Context) (mode : Mode)
    (name : ρ) : (s.close t ctx mode name).Spans text := by
  refine ⟨ended.place, ?_⟩
  unfold State.close
  simp only
  split
  · exact Attempts.isBoundary_note ended.attempts began.place.isBoundary
  · exact ended.attempts

/-- A failure of a rule is noted at a boundary of the text. -/
theorem fail (began : s.Spans text) {a : Attempts ρ} (attempts : IsBoundary text a.offset)
    (ctx : Context) (mode : Mode) (name : ρ) :
    IsBoundary text (s.fail a ctx mode name).offset := by
  unfold State.fail
  split
  · exact attempts
  · exact Attempts.isBoundary_note attempts began.place.isBoundary

/-- A run does not leave the text. -/
theorem run {fuel : Nat} (ctx : Context) (e : Expr ρ) (spans : s.Spans text) :
    (run g fuel ctx e s).Spans text := by
  -- Every call is made with a place in the text, whatever was tried before.
  induction fuel generalizing ctx e s with
  | zero => exact trivial
  | succ fuel ih =>
    cases e with
    | empty => exact spans
    | start =>
      simp only [Peg.run]
      split
      · exact spans
      · exact spans.attempts
    | finish =>
      simp only [Peg.run]
      split
      · exact spans
      · exact spans.attempts
    | char members =>
      simp only [Peg.run]
      split
      · exact spans.attempts
      · rename_i c rest ahead
        split
        · exact spans.advance ahead
        · exact spans.attempts
    | literal text =>
      simp only [Peg.run]
      split
      · rename_i t found
        exact spans.literal found
      · exact spans.attempts
    | rule name =>
      simp only [Peg.run]
      generalize (g.modifier name).outer ctx.mode = outer
      have entered : (if ctx.traces outer then { s with trail := [] } else s).Spans text := by
        split
        · exact ⟨spans.place, spans.attempts⟩
        · exact spans
      have inside := ih ⟨(g.modifier name).inner ctx.mode, ctx.polarity⟩ (g.body name) entered
      split <;> rename_i outcome <;> rw [outcome] at inside
      · exact spans.close inside ctx outer name
      · exact spans.fail inside ctx outer name
      · exact trivial
    | seq gap first second =>
      have front := ih ctx first spans
      simp only [Peg.run]
      cases outcome : Peg.run g fuel ctx first s with
      | failed | exhausted =>
        rw [outcome] at front
        exact front
      | matched t =>
        rw [outcome] at front
        simp only
        split
        · have between := ih ctx g.trivia front
          cases skipped : Peg.run g fuel ctx g.trivia t with
          | failed | exhausted =>
            rw [skipped] at between
            exact between
          | matched u =>
            rw [skipped] at between
            exact ih ctx second between
        · exact ih ctx second front
    | choice first second =>
      have front := ih ctx first spans
      simp only [Peg.run]
      cases outcome : Peg.run g fuel ctx first s with
      | matched | exhausted =>
        rw [outcome] at front
        exact front
      | failed a =>
        rw [outcome] at front
        exact ih ctx second (spans.retry front)
    | star round =>
      have front := ih ctx round spans
      simp only [Peg.run]
      cases outcome : Peg.run g fuel ctx round s with
      | matched t =>
        rw [outcome] at front
        exact ih ctx (.star round) front
      | failed a =>
        rw [outcome] at front
        exact spans.retry front
      | exhausted => exact trivial
    | not absent =>
      have inside := ih ⟨ctx.mode, ctx.polarity.flip⟩ absent spans
      simp only [Peg.run]
      cases outcome : Peg.run g fuel ⟨ctx.mode, ctx.polarity.flip⟩ absent s with
      | matched t =>
        rw [outcome] at inside
        exact inside.attempts
      | failed a =>
        rw [outcome] at inside
        exact spans.retry inside
      | exhausted => exact trivial

end State.Spans

end ServiceIdl.Peg
