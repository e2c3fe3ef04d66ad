import ServiceIdl.Proofs.Grammar.Rank

/-!
# Matching a document ends

The ranking of the document grammar says more than that the bound on the depth of calls is
never reached. No chain of calls comes back to a rule before it has read a character, also
not through sections that are empty or through trivia; no round of a repetition matches
without reading; so every chain of calls ends, and with enough fuel the answer is always the
same.
-/

namespace ServiceIdl

open Peg (Context State Call Calls)
open Relation (TransGen ReflTransGen)

/-- What a run of a text as a document comes to, with this much fuel. -/
def runDocument (text : String) (fuel : Nat) : Peg.Outcome Rule :=
  Peg.run documentGrammar fuel documentContext (.rule .idl) (initialState text.toList)

/-- The outcome that a text has: with enough fuel, and with any less either this one or none. -/
structure HasOutcome (text : String) (outcome : Peg.Outcome Rule) : Prop where
  settled : ∀ fuel, depthBound text.toList.length ≤ fuel → runDocument text fuel = outcome
  unique : ∀ fuel, runDocument text fuel = .exhausted ∨ runDocument text fuel = outcome

/-- With fuel for the depth of the text the run has ended, so its outcome is the one of the text. -/
theorem hasOutcome_runDocument (text : String) :
    HasOutcome text (runDocument text (depthBound text.toList.length)) := by
  have ended := run_idl_ne_exhausted text.toList
  constructor
  · intro fuel enough
    exact Peg.run_eq_of_le ended enough
  · intro fuel
    by_cases exhausted : runDocument text fuel = .exhausted
    · exact .inl exhausted
    · rcases Nat.le_total fuel (depthBound text.toList.length) with less | more
      · exact .inr (Peg.run_eq_of_le exhausted less).symm
      · exact .inr (Peg.run_eq_of_le ended more)

/-- Every text is accepted or rejected, and with enough fuel always in the same way. Chains of
calls end; a rule that is called again stands behind a character that was read in between; and
so does the end of every round of a repetition. -/
theorem recognition_ends :
    (∀ text, ∃ outcome, HasOutcome text outcome ∧
      ((∃ s, outcome = .matched s ∧ recognise text = .ok s.trail.reverse) ∨
        ∃ a, outcome = .failed a ∧ recognise text = .error (.ofAttempts a))) ∧
    (∀ (ctx : Context) (name : Rule) (s : State Rule),
      Acc (fun d c => Calls documentGrammar c d) ⟨ctx, .rule name, s⟩) ∧
    (∀ (ctx ctx' : Context) (name : Rule) (s t : State Rule),
      TransGen (Calls documentGrammar) ⟨ctx, .rule name, s⟩ ⟨ctx', .rule name, t⟩ →
      s.offset < t.offset) ∧
    ∀ (ctx : Context) (name : Rule) (s : State Rule) (c : Call Rule),
      ReflTransGen (Calls documentGrammar) ⟨ctx, .rule name, s⟩ c →
      ∀ e, c.Repeats e → ∀ (fuel : Nat) (ctx : Context) (s t : State Rule),
        Peg.run documentGrammar fuel ctx e s = .matched t → s.offset < t.offset := by
  refine ⟨fun text => ?_, fun ctx name s => documentRanking.acc_of_roundsRead rfl, ?_, ?_⟩
  · refine ⟨_, hasOutcome_runDocument text, ?_⟩
    have ended := run_idl_ne_exhausted text.toList
    unfold runDocument recognise
    cases outcome : Peg.run documentGrammar (depthBound text.toList.length) documentContext
        (.rule .idl) (initialState text.toList) with
    | matched s => exact .inl ⟨s, rfl, by simp only [outcome]⟩
    | failed a => exact .inr ⟨a, rfl, by simp only [outcome]⟩
    | exhausted => exact absurd outcome ended
  · intro ctx ctx' name s t chain
    exact documentRanking.offset_lt_of_chain chain
  · intro _ _ _ c chain e repeats fuel ctx s t matched
    exact documentRanking.offset_lt_of_repeats rfl chain repeats matched

/-- An array in an array. -/
def nestedArray : List Char := "[[]]".toList

/-- From the value of an array, a chain of calls leads to the value inside of it, which stands
behind the bracket. -/
theorem recognition_ends_nestedArray :
    ∃ s t : State Rule, TransGen (Calls documentGrammar)
        ⟨documentContext, .rule .nodeValue, s⟩ ⟨documentContext, .rule .nodeValue, t⟩ ∧
      s.offset < t.offset := by
  have behind : ∃ t u, Peg.run documentGrammar 20 documentContext (Rule.text "[")
        (initialState nestedArray) = .matched t ∧
      Peg.run documentGrammar 20 documentContext documentGrammar.trivia t = .matched u :=
    ⟨_, _, rfl, rfl⟩
  obtain ⟨t, u, bracket, blanks⟩ := behind
  have value : Calls documentGrammar ⟨documentContext, .rule .nodeValue, initialState nestedArray⟩
    ⟨documentContext, Rule.nodeValue.body, initialState nestedArray⟩ := .rule
  have array : Calls documentGrammar ⟨documentContext, .rule .nodeArray, initialState nestedArray⟩
    ⟨documentContext, Rule.nodeArray.body, initialState nestedArray⟩ := .rule
  have items : Calls documentGrammar
      ⟨documentContext, Rule.nodeArray.body, initialState nestedArray⟩
      ⟨documentContext, Rule.inOrder [Rule.many (.rule .nodeValue), Rule.text "]"], u⟩ :=
    .behindTrivia ⟨rfl, rfl⟩ bracket blanks
  have chain : TransGen (Calls documentGrammar)
      ⟨documentContext, .rule .nodeValue, initialState nestedArray⟩
      ⟨documentContext, .rule .nodeValue, u⟩ :=
    .head value (.head .left (.head array (.head items (.head .first (.head .left
      (.single .first))))))
  exact ⟨_, u, chain, recognition_ends.2.2.1 _ _ _ _ _ chain⟩

end ServiceIdl
