import ServiceIdl.Proofs.Grammar.Rank
import ServiceIdl.Proofs.Text.Spacing
import ServiceIdl.Syntax.Document

/-!
# Recognition and spacing

The grammar names blanks, tabs and commas in one rule only, that of white space, and
there it treats them alike; no class of characters tells them apart. So the run over a
uniform text is the run over the text, step by step (`run_uniform`). Only the fuel can
differ, since a comma is the last kind of white space that is tried: the relation
`Peg.Outcome.Uniform` therefore says nothing about a run that did not end, and both runs
of a whole document end.
-/

namespace ServiceIdl

open Peg (Expr State Context CharClass)

namespace Peg

variable {ρ : Type}

/-- The state before the uniform text. -/
def State.uniform (s : State ρ) : State ρ := { s with rest := Text.uniform s.rest }

/-- A run over a uniform text comes out like the run over the text, if both end. -/
inductive Outcome.Uniform : Outcome ρ → Outcome ρ → Prop
  | matched (s : State ρ) : Uniform (.matched s) (.matched s.uniform)
  | failed (a : Attempts ρ) : Uniform (.failed a) (.failed a)
  | exhausted (o : Outcome ρ) : Uniform .exhausted o
  | unended (o : Outcome ρ) : Uniform o .exhausted

/-- Whether no literal has a spacing character. -/
def Expr.steady : Expr ρ → Bool
  | .literal text => text.all fun c => !Text.isSpacing c
  | .seq _ first second | .choice first second => first.steady && second.steady
  | .star round => round.steady
  | .not absent => absent.steady
  | .empty | .start | .finish | .char _ | .rule _ => true

/-- Making a character uniform keeps it in its classes. -/
theorem CharClass.contains_uniformChar (members : CharClass) (c : Char) :
    members.contains (Text.uniformChar c) = members.contains c := by
  cases spacing : Text.isSpacing c with
  | false => rw [Text.uniformChar_of_not_isSpacing spacing]
  | true =>
    rw [Text.uniformChar_of_isSpacing spacing]
    rcases Text.isSpacing_iff.mp spacing with rfl | rfl | rfl <;> cases members <;> decide

/-- Going past a character commutes with making the text uniform. -/
theorem State.advance_uniform (s : State ρ) (c : Char) (rest : List Char) :
    s.uniform.advance (Text.uniformChar c) (Text.uniform rest) = (s.advance c rest).uniform := by
  simp [State.advance, State.uniform]

/-- A literal without spacing characters stands in a uniform text where it stands in the
text. -/
theorem State.literal?_uniform {text : List Char}
    (plain : (text.all fun c => !Text.isSpacing c) = true) (s : State ρ) :
    s.uniform.literal? text = (s.literal? text).map State.uniform := by
  induction text generalizing s with
  | nil => rfl
  | cons c text ih =>
    rw [List.all_cons, Bool.and_eq_true, Bool.not_eq_true'] at plain
    rcases plain with ⟨head, tail⟩
    rw [State.literal?, State.literal?]
    rw [show s.uniform.rest = Text.uniform s.rest from rfl]
    cases s.rest with
    | nil => rfl
    | cons d rest =>
      simp only [Text.uniform_cons]
      by_cases same : c = d
      · have unchanged : c = Text.uniformChar d :=
          ((Text.uniformChar_eq_iff head).mpr same.symm).symm
        rw [if_pos unchanged, if_pos same, State.advance_uniform]
        exact ih tail _
      · have changed : c ≠ Text.uniformChar d := by
          intro equal
          exact same ((Text.uniformChar_eq_iff head).mp equal.symm).symm
        rw [if_neg changed, if_neg same]
        rfl

section Runs

variable {g : Grammar ρ} {fuel : Nat} {ctx : Context}

/-- The run of an expression is the same over the uniform text. -/
def Expr.UniformAt (g : Grammar ρ) (fuel : Nat) (ctx : Context) (e : Expr ρ) (s : State ρ) :
    Prop :=
  (run g fuel ctx e s).Uniform (run g fuel ctx e s.uniform)

/-- A literal, once it is found in both texts or in neither. -/
theorem Expr.UniformAt.literal {text : List Char} {s : State ρ}
    (same : s.uniform.literal? text = (s.literal? text).map State.uniform) :
    (Expr.literal text).UniformAt g fuel ctx s := by
  cases fuel with
  | zero => exact .exhausted _
  | succ fuel =>
    simp only [Expr.UniformAt, run, same]
    cases s.literal? text with
    | none => exact .failed _
    | some t => exact .matched t

/-- An ordered choice, whose second alternative may start from any attempts. -/
theorem Expr.UniformAt.choice {first second : Expr ρ} {s : State ρ}
    (front : ∀ less, fuel = less + 1 → first.UniformAt g less ctx s)
    (behind : ∀ less, fuel = less + 1 → ∀ a,
      second.UniformAt g less ctx { s with attempts := a }) :
    (Expr.choice first second).UniformAt g fuel ctx s := by
  cases fuel with
  | zero => exact .exhausted _
  | succ fuel =>
    have front := front fuel rfl
    have behind := behind fuel rfl
    simp only [Expr.UniformAt, run] at front ⊢
    generalize run g fuel ctx first s = a at front ⊢
    generalize run g fuel ctx first s.uniform = b at front ⊢
    cases front with
    | matched t => exact .matched t
    | failed a => exact behind a
    | exhausted => exact .exhausted _
    | unended => exact .unended _

/-- A rule is the same over the uniform text if its body is. -/
theorem Expr.UniformAt.rule {name : ρ} {s : State ρ}
    (body : (g.body name).UniformAt g fuel ⟨(g.modifier name).inner ctx.mode, ctx.polarity⟩
      (if ctx.traces ((g.modifier name).outer ctx.mode) then { s with trail := [] } else s)) :
    (Expr.rule name).UniformAt g (fuel + 1) ctx s := by
  have enters : (if ctx.traces ((g.modifier name).outer ctx.mode)
      then { s.uniform with trail := [] } else s.uniform) =
      (if ctx.traces ((g.modifier name).outer ctx.mode)
        then { s with trail := [] } else s).uniform := by
    split
    · rfl
    · rfl
  simp only [Expr.UniformAt, run, enters] at body ⊢
  generalize run g fuel _ (g.body name) _ = a at body ⊢
  generalize run g fuel _ (g.body name) _ = b at body ⊢
  cases body with
  | matched t => exact .matched _
  | failed a => exact .failed _
  | exhausted => exact .exhausted _
  | unended => exact .unended _

end Runs

end Peg

open Peg (run)

/-! ## White space -/

/-- Every spacing character is white space. -/
theorem run_whitespace_of_isSpacing {c : Char} (spacing : Text.isSpacing c = true) (fuel : Nat)
    (ctx : Context) (s : State Rule) (rest : List Char) :
    run documentGrammar (fuel + 6) ctx Rule.whitespace.body { s with rest := c :: rest } =
      .matched { s with rest, offset := s.offset + 1 } := by
  rcases Text.isSpacing_iff.mp spacing with rfl | rfl | rfl <;> rfl

/-- Before a character that is no spacing, a spacing character does not stand. -/
theorem uniformAt_spacing_of_plain {d : Char} (spacing : Text.isSpacing d = true) {s : State Rule}
    (plain : ∀ c rest, s.rest = c :: rest → Text.isSpacing c = false) (fuel : Nat)
    (ctx : Context) : (Expr.literal [d]).UniformAt documentGrammar fuel ctx s := by
  apply Expr.UniformAt.literal
  rcases s with ⟨text, offset, trail, attempts⟩
  cases text with
  | nil => rfl
  | cons c rest =>
    have head : Text.isSpacing c = false := plain c rest rfl
    have other : d ≠ c := by
      rintro rfl
      rw [spacing] at head
      cases head
    rw [State.uniform, State.literal?, State.literal?]
    simp only [Text.uniform_cons, Text.uniformChar_of_not_isSpacing head, if_neg other,
      Option.map_none]

/-- White space is the same in a uniform text. -/
theorem uniformAt_whitespace (fuel : Nat) (ctx : Context) (s : State Rule) :
    Rule.whitespace.body.UniformAt documentGrammar fuel ctx s := by
  by_cases spaced : ∃ c rest, s.rest = c :: rest ∧ Text.isSpacing c = true
  · -- A spacing character is read on both sides, once both runs have the fuel for it.
    obtain ⟨c, rest, front, spacing⟩ := spaced
    obtain ⟨text, offset, trail, attempts⟩ := s
    subst front
    have comma : Text.isSpacing (Text.uniformChar c) = true := by
      rw [Text.uniformChar_of_isSpacing spacing]
      rfl
    have left := run_whitespace_of_isSpacing spacing fuel ctx ⟨[], offset, trail, attempts⟩ rest
    have right := run_whitespace_of_isSpacing comma fuel ctx ⟨[], offset, trail, attempts⟩
      (Text.uniform rest)
    by_cases ended : run documentGrammar fuel ctx Rule.whitespace.body
        ⟨c :: rest, offset, trail, attempts⟩ = .exhausted
    · rw [Expr.UniformAt, ended]
      exact .exhausted _
    by_cases uniformEnded : run documentGrammar fuel ctx Rule.whitespace.body
        ⟨Text.uniformChar c :: Text.uniform rest, offset, trail, attempts⟩ = .exhausted
    · rw [Expr.UniformAt, State.uniform, Text.uniform_cons, uniformEnded]
      exact .unended _
    rw [Expr.UniformAt, State.uniform, Text.uniform_cons,
      ← Peg.run_eq_of_le ended (Nat.le_add_right fuel 6),
      ← Peg.run_eq_of_le uniformEnded (Nat.le_add_right fuel 6), left, right]
    exact .matched ⟨rest, offset + 1, trail, attempts⟩
  · -- Before any other character, only a newline can stand, which has no spacing in it.
    have plain : ∀ c rest, s.rest = c :: rest → Text.isSpacing c = false := by
      intro c rest front
      rw [← Bool.not_eq_true]
      exact fun spacing => spaced ⟨c, rest, front, spacing⟩
    have bare : ∀ {d : Char}, Text.isSpacing d = true → ∀ less t, t.rest = s.rest →
        (Expr.literal [d]).UniformAt documentGrammar less ctx t := by
      intro d spacing less t same
      rw [← same] at plain
      exact uniformAt_spacing_of_plain spacing plain less ctx
    have newline : ∀ less t, Rule.newline.UniformAt documentGrammar less ctx t := by
      intro less t
      refine .choice (fun _ _ => ?_) fun _ _ a => .choice (fun _ _ => ?_) fun _ _ a => ?_
      · exact .literal (State.literal?_uniform (by decide) _)
      · exact .literal (State.literal?_uniform (by decide) _)
      · exact .literal (State.literal?_uniform (by decide) _)
    refine .choice (fun _ _ => ?_) fun _ _ _ => .choice (fun _ _ => ?_) fun _ _ _ =>
      .choice (fun _ _ => ?_) fun _ _ _ => ?_
    · exact bare (d := ' ') rfl _ _ rfl
    · exact bare (d := '\t') rfl _ _ rfl
    · exact newline ..
    · exact bare (d := ',') rfl _ _ rfl

/-! ## The grammar -/

/-- White space is the one rule that spells out blanks. -/
theorem Rule.steady_body {name : Rule} (other : name ≠ .whitespace) : name.body.steady = true := by
  have checked : ∀ name ∈ Rule.all, name ≠ .whitespace → name.body.steady = true := by decide
  exact checked name (mem_all name) other

/-- A run over a uniform text is the run over the text. -/
theorem run_uniform (fuel : Nat) (ctx : Context) {e : Expr Rule} (steady : e.steady = true)
    (s : State Rule) : e.UniformAt documentGrammar fuel ctx s := by
  induction fuel generalizing ctx e s with
  | zero => exact .exhausted _
  | succ fuel ih =>
    cases e with
    | empty => exact .matched s
    | start =>
      change (if s.offset = 0 then Peg.Outcome.matched s else .failed s.attempts).Uniform
        (if s.offset = 0 then .matched s.uniform else .failed s.attempts)
      split
      · exact .matched s
      · exact .failed _
    | finish =>
      rcases s with ⟨text, offset, trail, attempts⟩
      cases text with
      | nil => exact .matched ⟨[], offset, trail, attempts⟩
      | cons => exact .failed _
    | char members =>
      rcases s with ⟨text, offset, trail, attempts⟩
      cases text with
      | nil => exact .failed _
      | cons c rest =>
        simp only [Expr.UniformAt, run, State.uniform, Text.uniform_cons,
          CharClass.contains_uniformChar]
        split
        · have advanced := State.advance_uniform ⟨c :: rest, offset, trail, attempts⟩ c rest
          simp only [State.uniform] at advanced
          rw [Text.uniform_cons] at advanced
          rw [advanced]
          exact .matched _
        · exact .failed _
    | literal text => exact .literal (State.literal?_uniform steady s)
    | rule name =>
      refine .rule ?_
      by_cases white : name = .whitespace
      · rw [white]
        exact uniformAt_whitespace ..
      · exact ih _ (Rule.steady_body white) _
    | seq gap first second =>
      rw [Expr.steady, Bool.and_eq_true] at steady
      have front := ih ctx steady.1 s
      simp only [Expr.UniformAt, run] at front ⊢
      generalize run documentGrammar fuel ctx first s = a at front ⊢
      generalize run documentGrammar fuel ctx first s.uniform = b at front ⊢
      cases front with
      | failed => exact .failed _
      | exhausted => exact .exhausted _
      | unended => exact .unended _
      | matched t =>
        simp only
        split
        · have between := ih ctx (e := documentGrammar.trivia) rfl t
          rw [Expr.UniformAt] at between
          generalize run documentGrammar fuel ctx documentGrammar.trivia t = a at between ⊢
          generalize run documentGrammar fuel ctx documentGrammar.trivia t.uniform = b
            at between ⊢
          cases between with
          | failed => exact .failed _
          | exhausted => exact .exhausted _
          | unended => exact .unended _
          | matched u => exact ih ctx steady.2 u
        · exact ih ctx steady.2 t
    | choice first second =>
      rw [Expr.steady, Bool.and_eq_true] at steady
      refine .choice (fun less same => ?_) fun less same a => ?_
      · cases same
        exact ih ctx steady.1 s
      · cases same
        exact ih ctx steady.2 _
    | star round =>
      have front := ih ctx (e := round) steady s
      simp only [Expr.UniformAt, run] at front ⊢
      generalize run documentGrammar fuel ctx round s = a at front ⊢
      generalize run documentGrammar fuel ctx round s.uniform = b at front ⊢
      cases front with
      | matched t => exact ih ctx steady t
      | failed a => exact .matched _
      | exhausted => exact .exhausted _
      | unended => exact .unended _
    | not absent =>
      have inside := ih ⟨ctx.mode, ctx.polarity.flip⟩ (e := absent) steady s
      simp only [Expr.UniformAt, run] at inside ⊢
      generalize run documentGrammar fuel _ absent s = a at inside ⊢
      generalize run documentGrammar fuel _ absent s.uniform = b at inside ⊢
      cases inside with
      | matched t => exact .failed _
      | failed a => exact .matched _
      | exhausted => exact .exhausted _
      | unended => exact .unended _

/-! ## Documents -/

/-- A text is recognised like its uniform text. -/
theorem recognise_uniform (text : String) :
    recognise (String.ofList (Text.uniform text.toList)) = recognise text := by
  have same := run_uniform (depthBound text.toList.length) documentContext (e := .rule .idl) rfl
    (initialState text.toList)
  have ended := run_idl_ne_exhausted text.toList
  have uniformEnded := run_idl_ne_exhausted (Text.uniform text.toList)
  rw [Text.length_uniform] at uniformEnded
  have start : (initialState text.toList).uniform = initialState (Text.uniform text.toList) := rfl
  rw [Expr.UniformAt, start] at same
  unfold recognise
  simp only [String.toList_ofList, Text.length_uniform]
  generalize run documentGrammar _ _ _ (initialState text.toList) = a at same ended ⊢
  generalize run documentGrammar _ _ _ (initialState (Text.uniform text.toList)) = b
    at same uniformEnded ⊢
  cases same with
  | matched t => rfl
  | failed a => rfl
  | exhausted => exact absurd rfl ended
  | unended => exact absurd rfl uniformEnded

/-- Texts that differ in their spacing only have the same events, or are rejected alike. -/
theorem documentEvents_eq_of_uniform_eq {text other : String}
    (same : Text.uniform text.toList = Text.uniform other.toList) :
    documentEvents text = documentEvents other := by
  rw [documentEvents, documentEvents, ← recognise_uniform text, same, recognise_uniform]

end ServiceIdl
