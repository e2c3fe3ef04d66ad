import ServiceIdl.Peg.Run
import ServiceIdl.Text.Bytes

/-!
# Derivations of matches

`run` is a machine: it has fuel, a record of attempts, and a trail that grows
backwards. What a match says about the text needs none of these. `Derives` is the
match as a tree of rule applications: an expression at an offset reads a part of
the text, leaves the rest, and traces the rules that were matched on the way.
A lookahead reads and traces nothing, so only what stands outside all lookaheads
has a derivation; where the choice of a derivation hangs on something that is
absent, it keeps a run that failed (`Fails`).

`Matches.of_run` is the link: whatever `run` matches outside of lookaheads has a
derivation, whatever the fuel. It is proved once for any grammar, and all that is
known about documents is an induction over derivations.
-/

namespace ServiceIdl.Peg

open Text (byteLength)

variable {ρ : Type} {g : Grammar ρ}

/-! ## Derivations -/

/-- Some run of the expression fails on the text `rest` behind `offset` bytes. -/
def Fails (g : Grammar ρ) (mode : Mode) (e : Expr ρ) (offset : Nat) (rest : List Char) : Prop :=
  ∃ fuel polarity trail attempts last,
    run g fuel ⟨mode, polarity⟩ e ⟨rest, offset, trail, attempts⟩ = .failed last

/-- `Derives g mode e offset read rest trace`: behind `offset` bytes, and in front
of `rest`, the expression `e` reads `read` and traces the matches `trace`. -/
inductive Derives (g : Grammar ρ) :
    Mode → Expr ρ → Nat → List Char → List Char → List (Match ρ) → Prop
  | empty {mode : Mode} {offset : Nat} {rest : List Char} :
    Derives g mode .empty offset [] rest []
  | start {mode : Mode} {rest : List Char} :
    Derives g mode .start 0 [] rest []
  | finish {mode : Mode} {offset : Nat} :
    Derives g mode .finish offset [] [] []
  | char {mode : Mode} {members : CharClass} {offset : Nat} {c : Char} {rest : List Char} :
    members.contains c → Derives g mode (.char members) offset [c] rest []
  | literal {mode : Mode} {text : List Char} {offset : Nat} {rest : List Char} :
    Derives g mode (.literal text) offset text rest []
  | traced {mode : Mode} {name : ρ} {offset : Nat} {read rest : List Char}
      {inside : List (Match ρ)} :
    (g.modifier name).outer mode ≠ .atomic →
    Derives g ((g.modifier name).inner mode) (g.body name) offset read rest inside →
    Derives g mode (.rule name) offset read rest
      [.mk name offset (offset + byteLength read) inside]
  | untraced {mode : Mode} {name : ρ} {offset : Nat} {read rest : List Char}
      {inside : List (Match ρ)} :
    (g.modifier name).outer mode = .atomic →
    Derives g ((g.modifier name).inner mode) (g.body name) offset read rest inside →
    Derives g mode (.rule name) offset read rest inside
  | tight {mode : Mode} {gap : Gap} {first second : Expr ρ} {offset : Nat}
      {a b rest : List Char} {ms ns : List (Match ρ)} :
    ¬ (gap = .loose ∧ mode = .loose) →
    Derives g mode first offset a (b ++ rest) ms →
    Derives g mode second (offset + byteLength a) b rest ns →
    Derives g mode (.seq gap first second) offset (a ++ b) rest (ms ++ ns)
  | loose {first second : Expr ρ} {offset : Nat} {a between b rest : List Char}
      {ms skipped ns : List (Match ρ)} :
    Derives g .loose first offset a (between ++ (b ++ rest)) ms →
    Derives g .loose g.trivia (offset + byteLength a) between (b ++ rest) skipped →
    Derives g .loose second (offset + byteLength a + byteLength between) b rest ns →
    Derives g .loose (.seq .loose first second) offset (a ++ (between ++ b)) rest
      (ms ++ (skipped ++ ns))
  | left {mode : Mode} {first second : Expr ρ} {offset : Nat} {read rest : List Char}
      {ms : List (Match ρ)} :
    Derives g mode first offset read rest ms →
    Derives g mode (.choice first second) offset read rest ms
  | right {mode : Mode} {first second : Expr ρ} {offset : Nat} {read rest : List Char}
      {ms : List (Match ρ)} :
    Fails g mode first offset (read ++ rest) →
    Derives g mode second offset read rest ms →
    Derives g mode (.choice first second) offset read rest ms
  | stop {mode : Mode} {round : Expr ρ} {offset : Nat} {rest : List Char} :
    Fails g mode round offset rest →
    Derives g mode (.star round) offset [] rest []
  | round {mode : Mode} {round : Expr ρ} {offset : Nat} {a b rest : List Char}
      {ms ns : List (Match ρ)} :
    Derives g mode round offset a (b ++ rest) ms →
    Derives g mode (.star round) (offset + byteLength a) b rest ns →
    Derives g mode (.star round) offset (a ++ b) rest (ms ++ ns)
  | absent {mode : Mode} {e : Expr ρ} {offset : Nat} {rest : List Char} :
    Fails g mode e offset rest →
    Derives g mode (.not e) offset [] rest []

/-! ## What a run matches has a derivation -/

/-- A literal is matched where it stands, and nothing but the place changes. -/
theorem State.literal?_eq_some_iff {text : List Char} {s t : State ρ} :
    s.literal? text = some t ↔
      s.rest = text ++ t.rest ∧
        t = { s with rest := t.rest, offset := s.offset + byteLength text } := by
  induction text generalizing s with
  | nil =>
    constructor
    · intro found
      cases found
      exact ⟨rfl, rfl⟩
    · intro both
      rcases both with ⟨same, moved⟩
      have stays : s.rest = t.rest := same
      rw [moved, ← stays]
      rfl
  | cons c text ih =>
    cases before : s.rest with
    | nil => simp [State.literal?, before]
    | cons d rest =>
      by_cases same : c = d
      · subst same
        simp only [State.literal?, before, ↓reduceIte, ih, State.advance, byteLength,
          List.cons_append, List.cons.injEq, true_and, Nat.add_assoc]
      · simp [State.literal?, before, same, Ne.symm same]

/-- `Advances s t`: the state `t` is reached from `s` by reading `read` and tracing
`trace` in addition. -/
structure State.Advances (s t : State ρ) (read : List Char) (trace : List (Match ρ)) : Prop where
  rest : s.rest = read ++ t.rest
  offset : t.offset = s.offset + byteLength read
  trail : t.trail = trace.reverse ++ s.trail

/-- A step that reads nothing; only the attempts may differ. -/
theorem State.Advances.refl (s : State ρ) (attempts : Attempts ρ) :
    s.Advances { s with attempts } [] [] :=
  ⟨rfl, rfl, rfl⟩

/-- What two steps read stands one after the other, and so do their matches. -/
theorem State.Advances.trans {s t u : State ρ} {a b : List Char} {ms ns : List (Match ρ)}
    (first : s.Advances t a ms) (second : t.Advances u b ns) :
    s.Advances u (a ++ b) (ms ++ ns) := by
  refine ⟨?_, ?_, ?_⟩
  · rw [first.rest, second.rest, List.append_assoc]
  · rw [second.offset, first.offset, Text.byteLength_append, Nat.add_assoc]
  · rw [second.trail, first.trail, List.reverse_append, List.append_assoc]

/-- `Matches g mode e s t`: there is a derivation of what was read and traced from the
state `s` up to `t`. -/
def Matches (g : Grammar ρ) (mode : Mode) (e : Expr ρ) (s t : State ρ) : Prop :=
  ∃ read trace, s.Advances t read trace ∧ Derives g mode e s.offset read t.rest trace

namespace Matches

variable {mode : Mode} {gap : Gap} {e first second : Expr ρ} {name : ρ} {s t u v : State ρ}

/-- A rule that leaves a trace was matched with an empty trail, and is put on the old
one when it is closed; any other rule goes on with the trail there is. -/
theorem rule
    (body : Matches g ((g.modifier name).inner mode) (g.body name)
      (if Context.traces ⟨mode, .plain⟩ ((g.modifier name).outer mode) then { s with trail := [] }
        else s) t) :
    Matches g mode (.rule name) s
      (s.close t ⟨mode, .plain⟩ ((g.modifier name).outer mode) name) := by
  rcases body with ⟨read, inside, ⟨rest, offset, trail⟩, derives⟩
  by_cases traces : (g.modifier name).outer mode = .atomic
  · simp only [Context.traces, traces, ne_eq, not_true_eq_false, decide_false, Bool.and_false,
      Bool.false_eq_true, ↓reduceIte] at rest offset trail derives
    refine ⟨read, inside, ⟨rest, offset, ?_⟩, .untraced traces derives⟩
    simp [State.close, Context.traces, traces, trail]
  · simp only [Context.traces, traces, decide_true, ne_eq, not_false_eq_true, Bool.and_self,
      ↓reduceIte] at rest offset trail derives
    refine ⟨read, [.mk name s.offset (s.offset + byteLength read) inside],
      ⟨rest, offset, ?_⟩, .traced traces derives⟩
    simp [State.close, Context.traces, traces, trail, offset]

theorem tight (closed : ¬ (gap = .loose ∧ mode = .loose)) (front : Matches g mode first s t)
    (behind : Matches g mode second t u) : Matches g mode (.seq gap first second) s u := by
  rcases front with ⟨a, ms, toMiddle, firstDerives⟩
  rcases behind with ⟨b, ns, toEnd, secondDerives⟩
  rw [toEnd.rest] at firstDerives
  rw [toMiddle.offset] at secondDerives
  exact ⟨a ++ b, ms ++ ns, toMiddle.trans toEnd, .tight closed firstDerives secondDerives⟩

theorem loose (front : Matches g .loose first s t) (gap : Matches g .loose g.trivia t u)
    (behind : Matches g .loose second u v) : Matches g .loose (.seq .loose first second) s v := by
  rcases front with ⟨a, ms, toGap, firstDerives⟩
  rcases gap with ⟨between, skipped, toBehind, triviaDerives⟩
  rcases behind with ⟨b, ns, toEnd, secondDerives⟩
  rw [toBehind.rest, toEnd.rest] at firstDerives
  rw [toEnd.rest, toGap.offset] at triviaDerives
  rw [toBehind.offset, toGap.offset] at secondDerives
  exact ⟨a ++ (between ++ b), ms ++ (skipped ++ ns), toGap.trans (toBehind.trans toEnd),
    .loose firstDerives triviaDerives secondDerives⟩

theorem round (front : Matches g mode e s t) (behind : Matches g mode (.star e) t u) :
    Matches g mode (.star e) s u := by
  rcases front with ⟨a, ms, toMiddle, roundDerives⟩
  rcases behind with ⟨b, ns, toEnd, starDerives⟩
  rw [toEnd.rest] at roundDerives
  rw [toMiddle.offset] at starDerives
  exact ⟨a ++ b, ms ++ ns, toMiddle.trans toEnd, .round roundDerives starDerives⟩

/-- The second alternative, which starts with the attempts of the failed first one. -/
theorem right {attempts : Attempts ρ} (failed : Fails g mode first s.offset s.rest)
    (matched : Matches g mode second { s with attempts } t) :
    Matches g mode (.choice first second) s t := by
  rcases matched with ⟨read, ms, ⟨rest, offset, trail⟩, derives⟩
  have before : s.rest = read ++ t.rest := rest
  rw [before] at failed
  exact ⟨read, ms, ⟨rest, offset, trail⟩, .right failed derives⟩

end Matches

/-- A match of `run` outside of lookaheads advances the state, and has a
derivation of exactly what was read and traced. -/
theorem Matches.of_run {fuel : Nat} {mode : Mode} {e : Expr ρ} {s t : State ρ}
    (matched : run g fuel ⟨mode, .plain⟩ e s = .matched t) : Matches g mode e s t := by
  -- Every call of `run` hands on one unit of fuel less, so this is an induction
  -- on the fuel, with one case for each form of expression.
  induction fuel generalizing mode e s t with
  | zero => cases matched
  | succ fuel ih =>
    cases e with
    | empty =>
      cases matched
      exact ⟨[], [], .refl s s.attempts, .empty⟩
    | start =>
      simp only [run] at matched
      split at matched
      · rename_i first
        cases matched
        refine ⟨[], [], .refl s s.attempts, ?_⟩
        rw [first]
        exact .start
      · cases matched
    | finish =>
      simp only [run] at matched
      split at matched
      · rename_i last
        cases matched
        refine ⟨[], [], .refl s s.attempts, ?_⟩
        rw [List.isEmpty_iff.mp last]
        exact .finish
      · cases matched
    | char members =>
      simp only [run] at matched
      split at matched
      · cases matched
      · rename_i c rest before
        split at matched
        · rename_i member
          cases matched
          exact ⟨[c], [], ⟨before, rfl, rfl⟩, .char member⟩
        · cases matched
    | literal text =>
      simp only [run] at matched
      split at matched
      · rename_i after found
        cases matched
        obtain ⟨stands, moved⟩ := State.literal?_eq_some_iff.mp found
        refine ⟨text, [], ⟨stands, ?_, ?_⟩, .literal⟩
        · rw [moved]
        · rw [moved]
          rfl
      · cases matched
    | rule name =>
      simp only [run] at matched
      split at matched
      · rename_i after inner
        cases matched
        exact (ih inner).rule
      · cases matched
      · cases matched
    | seq gap first second =>
      simp only [run] at matched
      split at matched
      · rename_i middle firstMatched
        split at matched
        · rename_i gaps
          rcases gaps with ⟨rfl, rfl⟩
          split at matched
          · rename_i behind triviaMatched
            exact (ih firstMatched).loose (ih triviaMatched) (ih matched)
          · rename_i other
            exact absurd matched (other t)
        · rename_i closed
          exact (ih firstMatched).tight closed (ih matched)
      · rename_i other
        exact absurd matched (other t)
    | choice first second =>
      simp only [run] at matched
      split at matched
      · rename_i last firstFailed
        exact .right ⟨fuel, _, _, _, _, firstFailed⟩ (ih matched)
      · obtain ⟨read, ms, advances, derives⟩ := ih matched
        exact ⟨read, ms, advances, .left derives⟩
    | star round =>
      simp only [run] at matched
      split at matched
      · rename_i middle roundMatched
        exact (ih roundMatched).round (ih matched)
      · rename_i last roundFailed
        cases matched
        exact ⟨[], [], .refl s last, .stop ⟨fuel, _, _, _, _, roundFailed⟩⟩
      · cases matched
    | not e =>
      simp only [run] at matched
      split at matched
      · cases matched
      · rename_i last failed
        cases matched
        exact ⟨[], [], .refl s last, .absent ⟨fuel, _, _, _, _, failed⟩⟩
      · cases matched

/-! ## Taking derivations apart -/

/-- The second of two items reads up to the same rest as both together. -/
theorem Derives.second {mode : Mode} {gap : Gap} {first second : Expr ρ} {offset : Nat}
    {read rest : List Char} {trace : List (Match ρ)}
    (derives : Derives g mode (.seq gap first second) offset read rest trace) :
    ∃ offset read trace, Derives g mode second offset read rest trace := by
  cases derives with
  | tight _ _ last => exact ⟨_, _, _, last⟩
  | loose _ _ last => exact ⟨_, _, _, last⟩

end ServiceIdl.Peg
