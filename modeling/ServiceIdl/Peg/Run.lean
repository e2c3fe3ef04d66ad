import ServiceIdl.Peg.Attempts

/-!
# Matching a text against a grammar

`run` matches an expression at a place of a text. What it has matched is a trail
of `Match`es, one for each rule that leaves a trace: rules do so outside
lookaheads unless the mode is atomic. A failure gives back the record of
attempts only, so the place and the trail before it are restored by themselves.

The first argument of `run` bounds the depth of the calls. Every call hands on
one less, and a run that reaches zero is `exhausted`, which is neither a match
nor a failure.
-/

namespace ServiceIdl.Peg

variable {ρ : Type}

/-- A match of a rule, with the matches of rules inside it in their order. -/
inductive Match (ρ : Type) where
  | mk (name : ρ) (start stop : Nat) (children : List (Match ρ))
deriving Repr

/-- Where a match stands: the text that follows and its offset, the trail with
the newest match first, and the record of attempts. -/
structure State (ρ : Type) where
  rest : List Char
  offset : Nat
  trail : List (Match ρ)
  attempts : Attempts ρ

/-- What surrounds an expression. -/
structure Context where
  mode : Mode
  polarity : Polarity
deriving DecidableEq, Repr

/-- Whether a rule recorded in a mode leaves a trace. -/
def Context.traces (ctx : Context) (mode : Mode) : Bool :=
  ctx.polarity = .plain && mode ≠ .atomic

/-- How matching an expression came out. -/
inductive Outcome (ρ : Type) where
  | matched (s : State ρ)
  | failed (attempts : Attempts ρ)
  | exhausted

/-- The state after a character. -/
def State.advance (s : State ρ) (c : Char) (rest : List Char) : State ρ :=
  { s with rest, offset := s.offset + c.utf8Size }

/-- The state behind a literal text, if it stands here. -/
def State.literal? (s : State ρ) : List Char → Option (State ρ)
  | [] => some s
  | c :: text =>
    match s.rest with
    | [] => none
    | d :: rest => if c = d then (s.advance d rest).literal? text else none

/-- The state after a rule named `name` that began at `s` and matched up to `t`.
The trail of `t` holds the matches inside the rule only, if the rule leaves a
trace. -/
def State.close (s t : State ρ) (ctx : Context) (mode : Mode) (name : ρ) : State ρ :=
  { t with
    trail :=
      if ctx.traces mode then .mk name s.offset t.offset t.trail.reverse :: s.trail
      else t.trail
    attempts :=
      if ctx.polarity = .negative then
        t.attempts.note mode ctx.polarity name s.offset (s.attempts.mark s.offset)
      else t.attempts }

/-- The record after a rule named `name` that began at `s` and failed. -/
def State.fail (s : State ρ) (a : Attempts ρ) (ctx : Context) (mode : Mode) (name : ρ) :
    Attempts ρ :=
  if ctx.polarity = .negative then a
  else a.note mode ctx.polarity name s.offset (s.attempts.mark s.offset)

/-- Matches an expression. -/
def run (g : Grammar ρ) : Nat → Context → Expr ρ → State ρ → Outcome ρ
  | 0, _, _, _ => .exhausted
  | _ + 1, _, .empty, s => .matched s
  | _ + 1, _, .start, s => if s.offset = 0 then .matched s else .failed s.attempts
  | _ + 1, _, .finish, s => if s.rest.isEmpty then .matched s else .failed s.attempts
  | _ + 1, _, .char members, s =>
    match s.rest with
    | [] => .failed s.attempts
    | c :: rest => if members.contains c then .matched (s.advance c rest) else .failed s.attempts
  | _ + 1, _, .literal text, s =>
    match s.literal? text with
    | some t => .matched t
    | none => .failed s.attempts
  | n + 1, ctx, .rule name, s =>
    let outer := (g.modifier name).outer ctx.mode
    let within : Context := ⟨(g.modifier name).inner ctx.mode, ctx.polarity⟩
    let entered := if ctx.traces outer then { s with trail := [] } else s
    match run g n within (g.body name) entered with
    | .matched t => .matched (s.close t ctx outer name)
    | .failed a => .failed (s.fail a ctx outer name)
    | .exhausted => .exhausted
  | n + 1, ctx, .seq gap first second, s =>
    match run g n ctx first s with
    | .matched t =>
      if gap = .loose ∧ ctx.mode = .loose then
        match run g n ctx g.trivia t with
        | .matched u => run g n ctx second u
        | o => o
      else run g n ctx second t
    | o => o
  | n + 1, ctx, .choice first second, s =>
    match run g n ctx first s with
    | .failed a => run g n ctx second { s with attempts := a }
    | o => o
  | n + 1, ctx, .star round, s =>
    match run g n ctx round s with
    | .matched t => run g n ctx (.star round) t
    | .failed a => .matched { s with attempts := a }
    | .exhausted => .exhausted
  | n + 1, ctx, .not absent, s =>
    match run g n ⟨ctx.mode, ctx.polarity.flip⟩ absent s with
    | .matched t => .failed t.attempts
    | .failed a => .matched { s with attempts := a }
    | .exhausted => .exhausted

end ServiceIdl.Peg
