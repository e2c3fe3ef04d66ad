import ServiceIdl.Proofs.Peg.Derivation

/-!
# Derivations are what runs match

`Matches.of_run` gives a derivation for every match. This module is the way back: a
derivation is matched by every run with enough fuel, in any state that stands before
the same text (`Derives.exists_run`), and what fails in one state fails in all of them
(`Fails.exists_run`). Two facts about `run` carry this:

* fuel that is left over changes nothing (`run_eq_of_le`);
* how a run comes out, and how far it reads, depends on the text, the offset and the
  mode only, and neither on the polarity nor on the trail or the attempts
  (`run_agrees`).

So a text has one derivation from an expression at most (`Derives.unique`), and where
there is one, no run fails (`Derives.not_fails`). The section on failures says for each
form of expression how it fails, so that a derivation can be put together without any
run.
-/

namespace ServiceIdl.Peg

open Text (byteLength)

variable {ρ : Type} {g : Grammar ρ}

/-! ## Fuel that is left over -/

/-- A run that ended comes out the same with one unit of fuel more. -/
theorem run_succ_eq {fuel : Nat} {ctx : Context} {e : Expr ρ} {s : State ρ}
    (ended : run g fuel ctx e s ≠ .exhausted) :
    run g (fuel + 1) ctx e s = run g fuel ctx e s := by
  -- By induction on the fuel; a run that ended has called runs that ended only.
  induction fuel generalizing ctx e s with
  | zero => exact absurd rfl ended
  | succ fuel ih =>
    cases e with
    | empty | start | finish | char | literal => rfl
    | rule name =>
      rw [run] at ended
      rw [run, run]
      rw [ih]
      intro exhausted
      rw [exhausted] at ended
      exact ended rfl
    | seq gap first second =>
      rw [run] at ended
      rw [run, run]
      have firstEnded : run g fuel ctx first s ≠ .exhausted := by
        intro exhausted
        rw [exhausted] at ended
        exact ended rfl
      rw [ih firstEnded]
      cases front : run g fuel ctx first s with
      | failed | exhausted => rfl
      | matched t =>
        rw [front] at ended
        simp only at ended ⊢
        split
        · rename_i loose
          rw [if_pos loose] at ended
          have triviaEnded : run g fuel ctx g.trivia t ≠ .exhausted := by
            intro exhausted
            rw [exhausted] at ended
            exact ended rfl
          rw [ih triviaEnded]
          cases between : run g fuel ctx g.trivia t with
          | failed | exhausted => rfl
          | matched u =>
            rw [between] at ended
            exact ih ended
        · rename_i tight
          rw [if_neg tight] at ended
          exact ih ended
    | choice first second =>
      rw [run] at ended
      rw [run, run]
      have firstEnded : run g fuel ctx first s ≠ .exhausted := by
        intro exhausted
        rw [exhausted] at ended
        exact ended rfl
      rw [ih firstEnded]
      cases front : run g fuel ctx first s with
      | matched | exhausted => rfl
      | failed a =>
        rw [front] at ended
        exact ih ended
    | star round =>
      rw [run] at ended
      rw [run, run]
      have roundEnded : run g fuel ctx round s ≠ .exhausted := by
        intro exhausted
        rw [exhausted] at ended
        exact ended rfl
      rw [ih roundEnded]
      cases front : run g fuel ctx round s with
      | failed | exhausted => rfl
      | matched t =>
        rw [front] at ended
        exact ih ended
    | not e =>
      rw [run] at ended
      rw [run, run]
      have insideEnded : run g fuel ⟨ctx.mode, ctx.polarity.flip⟩ e s ≠ .exhausted := by
        intro exhausted
        rw [exhausted] at ended
        exact ended rfl
      rw [ih insideEnded]

/-- A run that ended comes out the same with any more fuel. -/
theorem run_eq_of_le {fuel more : Nat} {ctx : Context} {e : Expr ρ} {s : State ρ}
    (ended : run g fuel ctx e s ≠ .exhausted) (le : fuel ≤ more) :
    run g more ctx e s = run g fuel ctx e s := by
  induction le with
  | refl => rfl
  | step _ ih =>
    rw [← ih]
    apply run_succ_eq
    rw [ih]
    exact ended

theorem run_eq_failed_of_le {fuel more : Nat} {ctx : Context} {e : Expr ρ} {s : State ρ}
    {a : Attempts ρ} (failed : run g fuel ctx e s = .failed a) (le : fuel ≤ more) :
    run g more ctx e s = .failed a := by
  rw [run_eq_of_le (by rw [failed]; simp) le, failed]

/-! ## What a run depends on -/

/-- Two states stand at the same place of the same text. -/
structure State.Level (s t : State ρ) : Prop where
  rest : s.rest = t.rest
  offset : s.offset = t.offset

/-- Two runs came out the same way, and reached the same place if they matched. -/
inductive Outcome.Agrees : Outcome ρ → Outcome ρ → Prop
  | matched {s t : State ρ} : s.Level t → Agrees (.matched s) (.matched t)
  | failed {a b : Attempts ρ} : Agrees (.failed a) (.failed b)
  | exhausted : Agrees .exhausted .exhausted

/-- Level states find the same literals, and are level again behind them. -/
theorem State.Level.literal? {s t : State ρ} (level : s.Level t) (text : List Char) :
    (∀ s', s.literal? text = some s' → ∃ t', t.literal? text = some t' ∧ s'.Level t') ∧
      (s.literal? text = none → t.literal? text = none) := by
  induction text generalizing s t with
  | nil => simp [State.literal?, level]
  | cons c text ih =>
    rcases level with ⟨rest, offset⟩
    unfold State.literal?
    rw [rest]
    cases t.rest with
    | nil => simp
    | cons d behind =>
      by_cases same : c = d
      · have level : (s.advance d behind).Level (t.advance d behind) :=
          ⟨rfl, by simp [State.advance, offset]⟩
        simpa [same] using ih level
      · simp [same]

/-- How a run comes out depends on the text, the offset and the mode only. -/
theorem run_agrees (fuel : Nat) (mode : Mode) (p q : Polarity) (e : Expr ρ) {s t : State ρ}
    (level : s.Level t) : (run g fuel ⟨mode, p⟩ e s).Agrees (run g fuel ⟨mode, q⟩ e t) := by
  induction fuel generalizing mode p q e s t with
  | zero => exact .exhausted
  | succ fuel ih =>
    cases e with
    | empty => exact .matched level
    | start =>
      simp only [run, level.offset]
      split
      · exact .matched level
      · exact .failed
    | finish =>
      simp only [run, level.rest]
      split
      · exact .matched level
      · exact .failed
    | char members =>
      simp only [run, level.rest]
      split
      · exact .failed
      · split
        · exact .matched ⟨rfl, by simp [State.advance, level.offset]⟩
        · exact .failed
    | literal text =>
      obtain ⟨found, absent⟩ := level.literal? text
      simp only [run]
      cases stands : s.literal? text with
      | none =>
        rw [absent stands]
        exact .failed
      | some s' =>
        obtain ⟨t', stands', level'⟩ := found s' stands
        rw [stands']
        exact .matched level'
    | rule name =>
      -- Whether the rule is traced decides about the trail only.
      have entered (traced traced' : Bool) :
          (if traced then { s with trail := [] } else s).Level
            (if traced' then { t with trail := [] } else t) := by
        refine ⟨?_, ?_⟩
        · cases traced <;> cases traced' <;> exact level.rest
        · cases traced <;> cases traced' <;> exact level.offset
      have body := ih ((g.modifier name).inner mode) p q (g.body name)
        (entered (Context.traces ⟨mode, p⟩ ((g.modifier name).outer mode))
          (Context.traces ⟨mode, q⟩ ((g.modifier name).outer mode)))
      simp only [run]
      generalize run g fuel _ (g.body name) _ = a at body ⊢
      generalize run g fuel _ (g.body name) _ = b at body ⊢
      cases body with
      | matched inner => exact .matched ⟨inner.rest, inner.offset⟩
      | failed => exact .failed
      | exhausted => exact .exhausted
    | seq gap first second =>
      have front := ih mode p q first level
      simp only [run]
      generalize run g fuel ⟨mode, p⟩ first s = a at front ⊢
      generalize run g fuel ⟨mode, q⟩ first t = b at front ⊢
      cases front with
      | failed => exact .failed
      | exhausted => exact .exhausted
      | @matched s' t' middle =>
        simp only
        split
        · have between := ih mode p q g.trivia middle
          generalize run g fuel ⟨mode, p⟩ g.trivia s' = a at between ⊢
          generalize run g fuel ⟨mode, q⟩ g.trivia t' = b at between ⊢
          cases between with
          | failed => exact .failed
          | exhausted => exact .exhausted
          | matched behind => exact ih mode p q second behind
        · exact ih mode p q second middle
    | choice first second =>
      have front := ih mode p q first level
      simp only [run]
      generalize run g fuel ⟨mode, p⟩ first s = a at front ⊢
      generalize run g fuel ⟨mode, q⟩ first t = b at front ⊢
      cases front with
      | matched reached => exact .matched reached
      | exhausted => exact .exhausted
      | failed => exact ih mode p q second ⟨level.rest, level.offset⟩
    | star round =>
      have front := ih mode p q round level
      simp only [run]
      generalize run g fuel ⟨mode, p⟩ round s = a at front ⊢
      generalize run g fuel ⟨mode, q⟩ round t = b at front ⊢
      cases front with
      | matched reached => exact ih mode p q (.star round) reached
      | exhausted => exact .exhausted
      | failed => exact .matched ⟨level.rest, level.offset⟩
    | not e =>
      have inside := ih mode p.flip q.flip e level
      simp only [run]
      generalize run g fuel ⟨mode, p.flip⟩ e s = a at inside ⊢
      generalize run g fuel ⟨mode, q.flip⟩ e t = b at inside ⊢
      cases inside with
      | matched reached => exact .failed
      | exhausted => exact .exhausted
      | failed => exact .matched ⟨level.rest, level.offset⟩

/-- What fails in one state fails in every state at its place. -/
theorem Fails.exists_run {mode : Mode} {e : Expr ρ} {offset : Nat} {rest : List Char}
    (fails : Fails g mode e offset rest) :
    ∃ fuel, ∀ more, fuel ≤ more → ∀ polarity trail attempts, ∃ last,
      run g more ⟨mode, polarity⟩ e ⟨rest, offset, trail, attempts⟩ = .failed last := by
  rcases fails with ⟨fuel, p, trail, attempts, last, failed⟩
  refine ⟨fuel, fun more le q trail' attempts' => ?_⟩
  have level : State.Level (⟨rest, offset, trail, attempts⟩ : State ρ)
      ⟨rest, offset, trail', attempts'⟩ := ⟨rfl, rfl⟩
  have agrees := run_agrees (g := g) more mode p q e level
  rw [run_eq_failed_of_le failed le] at agrees
  generalize run g more ⟨mode, q⟩ e ⟨rest, offset, trail', attempts'⟩ = outcome at agrees
  cases agrees with
  | failed => exact ⟨_, rfl⟩

/-! ## A derivation is matched -/

/-- Every run of the expression with enough fuel matches what is derived. -/
theorem Derives.exists_run {mode : Mode} {e : Expr ρ} {offset : Nat} {read rest : List Char}
    {trace : List (Match ρ)} (derives : Derives g mode e offset read rest trace) :
    ∃ fuel, ∀ more, fuel ≤ more → ∀ polarity trail attempts, ∃ trail' last,
      run g more ⟨mode, polarity⟩ e ⟨read ++ rest, offset, trail, attempts⟩ =
        .matched ⟨rest, offset + byteLength read, trail', last⟩ ∧
      (polarity = .plain → trail' = trace.reverse ++ trail) := by
  induction derives with
  | empty =>
    refine ⟨1, fun more le polarity trail attempts => ?_⟩
    obtain ⟨n, rfl⟩ := Nat.exists_eq_add_of_le' le
    exact ⟨trail, attempts, rfl, fun _ => rfl⟩
  | start =>
    refine ⟨1, fun more le polarity trail attempts => ?_⟩
    obtain ⟨n, rfl⟩ := Nat.exists_eq_add_of_le' le
    exact ⟨trail, attempts, rfl, fun _ => rfl⟩
  | finish =>
    refine ⟨1, fun more le polarity trail attempts => ?_⟩
    obtain ⟨n, rfl⟩ := Nat.exists_eq_add_of_le' le
    exact ⟨trail, attempts, rfl, fun _ => rfl⟩
  | char member =>
    refine ⟨1, fun more le polarity trail attempts => ?_⟩
    obtain ⟨n, rfl⟩ := Nat.exists_eq_add_of_le' le
    refine ⟨trail, attempts, ?_, fun _ => rfl⟩
    simp [run, member, State.advance, byteLength]
  | @literal mode text offset rest =>
    refine ⟨1, fun more le polarity trail attempts => ?_⟩
    obtain ⟨n, rfl⟩ := Nat.exists_eq_add_of_le' le
    refine ⟨trail, attempts, ?_, fun _ => rfl⟩
    have stands : State.literal? ⟨text ++ rest, offset, trail, attempts⟩ text =
        some ⟨rest, offset + byteLength text, trail, attempts⟩ :=
      State.literal?_eq_some_iff.mpr ⟨rfl, rfl⟩
    rw [run, stands]
  | @traced mode name offset read rest inside traces _ ih =>
    rcases ih with ⟨fuel, runs⟩
    refine ⟨fuel + 1, fun more le polarity trail attempts => ?_⟩
    obtain ⟨n, rfl⟩ := Nat.exists_eq_add_of_le' (show 1 ≤ more by omega)
    rw [run]
    simp only
    by_cases plain : polarity = .plain
    · subst plain
      obtain ⟨trail', last, matched, traced⟩ := runs n (by omega) .plain [] attempts
      have counts : Context.traces ⟨mode, .plain⟩ ((g.modifier name).outer mode) = true := by
        simp [Context.traces, traces]
      rw [if_pos counts, matched]
      refine ⟨_, _, rfl, fun _ => ?_⟩
      rw [if_pos counts, traced rfl]
      simp
    · have silent : Context.traces ⟨mode, polarity⟩ ((g.modifier name).outer mode) = false := by
        simp [Context.traces, plain]
      obtain ⟨trail', last, matched, -⟩ := runs n (by omega) polarity trail attempts
      rw [silent, if_neg (by simp), matched]
      exact ⟨_, _, rfl, fun same => absurd same plain⟩
  | @untraced mode name offset read rest inside silent _ ih =>
    rcases ih with ⟨fuel, runs⟩
    refine ⟨fuel + 1, fun more le polarity trail attempts => ?_⟩
    obtain ⟨n, rfl⟩ := Nat.exists_eq_add_of_le' (show 1 ≤ more by omega)
    obtain ⟨trail', last, matched, traced⟩ := runs n (by omega) polarity trail attempts
    have uncounted : Context.traces ⟨mode, polarity⟩ ((g.modifier name).outer mode) = false := by
      simp [Context.traces, silent]
    rw [run]
    simp only
    rw [uncounted, if_neg (by simp), matched]
    refine ⟨_, _, rfl, fun plain => ?_⟩
    rw [uncounted, if_neg (by simp), traced plain]
  | @tight mode gap first second offset a b rest ms ns closed _ _ front behind =>
    rcases front with ⟨fuel, runFirst⟩
    rcases behind with ⟨fuel', runSecond⟩
    refine ⟨max fuel fuel' + 1, fun more le polarity trail attempts => ?_⟩
    obtain ⟨n, rfl⟩ := Nat.exists_eq_add_of_le' (show 1 ≤ more by omega)
    obtain ⟨trail₁, attempts₁, matched₁, traced₁⟩ := runFirst n (by omega) polarity trail attempts
    obtain ⟨trail₂, attempts₂, matched₂, traced₂⟩ :=
      runSecond n (by omega) polarity trail₁ attempts₁
    refine ⟨trail₂, attempts₂, ?_, fun plain => ?_⟩
    · rw [run, List.append_assoc, matched₁]
      simp only
      rw [if_neg closed, matched₂, Text.byteLength_append, Nat.add_assoc]
    · rw [traced₂ plain, traced₁ plain, List.reverse_append, List.append_assoc]
  | @loose first second offset a between b rest ms skipped ns _ _ _ front gap behind =>
    rcases front with ⟨fuel, runFirst⟩
    rcases gap with ⟨fuel', runTrivia⟩
    rcases behind with ⟨fuel'', runSecond⟩
    refine ⟨max fuel (max fuel' fuel'') + 1, fun more le polarity trail attempts => ?_⟩
    obtain ⟨n, rfl⟩ := Nat.exists_eq_add_of_le' (show 1 ≤ more by omega)
    obtain ⟨trail₁, attempts₁, matched₁, traced₁⟩ := runFirst n (by omega) polarity trail attempts
    obtain ⟨trail₂, attempts₂, matched₂, traced₂⟩ :=
      runTrivia n (by omega) polarity trail₁ attempts₁
    obtain ⟨trail₃, attempts₃, matched₃, traced₃⟩ :=
      runSecond n (by omega) polarity trail₂ attempts₂
    refine ⟨trail₃, attempts₃, ?_, fun plain => ?_⟩
    · rw [run, List.append_assoc, List.append_assoc, matched₁]
      simp only
      rw [if_pos ⟨trivial, trivial⟩, matched₂]
      simp only
      rw [matched₃, Text.byteLength_append, Text.byteLength_append]
      simp only [Nat.add_assoc]
    · rw [traced₃ plain, traced₂ plain, traced₁ plain]
      simp only [List.reverse_append, List.append_assoc]
  | left _ ih =>
    rcases ih with ⟨fuel, runs⟩
    refine ⟨fuel + 1, fun more le polarity trail attempts => ?_⟩
    obtain ⟨n, rfl⟩ := Nat.exists_eq_add_of_le' (show 1 ≤ more by omega)
    obtain ⟨trail', last, matched, traced⟩ := runs n (by omega) polarity trail attempts
    exact ⟨trail', last, by rw [run, matched], traced⟩
  | right fails _ ih =>
    obtain ⟨fuel, failing⟩ := fails.exists_run
    rcases ih with ⟨fuel', runs⟩
    refine ⟨max fuel fuel' + 1, fun more le polarity trail attempts => ?_⟩
    obtain ⟨n, rfl⟩ := Nat.exists_eq_add_of_le' (show 1 ≤ more by omega)
    obtain ⟨failure, failed⟩ := failing n (by omega) polarity trail attempts
    obtain ⟨trail', last, matched, traced⟩ := runs n (by omega) polarity trail failure
    refine ⟨trail', last, ?_, traced⟩
    rw [run, failed]
    exact matched
  | stop fails =>
    obtain ⟨fuel, failing⟩ := fails.exists_run
    refine ⟨fuel + 1, fun more le polarity trail attempts => ?_⟩
    obtain ⟨n, rfl⟩ := Nat.exists_eq_add_of_le' (show 1 ≤ more by omega)
    obtain ⟨failure, failed⟩ := failing n (by omega) polarity trail attempts
    refine ⟨trail, failure, ?_, fun _ => rfl⟩
    rw [run, List.nil_append, failed]
    rfl
  | @round mode round offset a b rest ms ns _ _ front behind =>
    rcases front with ⟨fuel, runRound⟩
    rcases behind with ⟨fuel', runStar⟩
    refine ⟨max fuel fuel' + 1, fun more le polarity trail attempts => ?_⟩
    obtain ⟨n, rfl⟩ := Nat.exists_eq_add_of_le' (show 1 ≤ more by omega)
    obtain ⟨trail₁, attempts₁, matched₁, traced₁⟩ := runRound n (by omega) polarity trail attempts
    obtain ⟨trail₂, attempts₂, matched₂, traced₂⟩ :=
      runStar n (by omega) polarity trail₁ attempts₁
    refine ⟨trail₂, attempts₂, ?_, fun plain => ?_⟩
    · rw [run, List.append_assoc, matched₁]
      simp only
      rw [matched₂, Text.byteLength_append, Nat.add_assoc]
    · rw [traced₂ plain, traced₁ plain, List.reverse_append, List.append_assoc]
  | absent fails =>
    obtain ⟨fuel, failing⟩ := fails.exists_run
    refine ⟨fuel + 1, fun more le polarity trail attempts => ?_⟩
    obtain ⟨n, rfl⟩ := Nat.exists_eq_add_of_le' (show 1 ≤ more by omega)
    obtain ⟨failure, failed⟩ := failing n (by omega) polarity.flip trail attempts
    refine ⟨trail, failure, ?_, fun _ => rfl⟩
    rw [run, List.nil_append]
    simp only
    rw [failed]
    rfl

/-- A text has one derivation from an expression at most. -/
theorem Derives.unique {mode : Mode} {e : Expr ρ} {offset : Nat} {read read' rest rest' : List Char}
    {trace trace' : List (Match ρ)} (left : Derives g mode e offset read rest trace)
    (right : Derives g mode e offset read' rest' trace') (same : read ++ rest = read' ++ rest') :
    read = read' ∧ rest = rest' ∧ trace = trace' := by
  obtain ⟨fuel, runs⟩ := left.exists_run
  obtain ⟨fuel', runs'⟩ := right.exists_run
  obtain ⟨trail, last, matched, traced⟩ :=
    runs (max fuel fuel') (by omega) .plain [] .initial
  obtain ⟨trail', last', matched', traced'⟩ :=
    runs' (max fuel fuel') (by omega) .plain [] .initial
  rw [same, matched'] at matched
  simp only [Outcome.matched.injEq, State.mk.injEq] at matched
  rcases matched with ⟨rfl, -, trails, -⟩
  have sameTrace := traced' rfl
  rw [trails, traced rfl] at sameTrace
  simp only [List.append_nil, List.reverse_inj] at sameTrace
  exact ⟨List.append_cancel_right same, rfl, sameTrace⟩

/-- What is derived does not fail. -/
theorem Derives.not_fails {mode : Mode} {e : Expr ρ} {offset : Nat} {read rest : List Char}
    {trace : List (Match ρ)} (derives : Derives g mode e offset read rest trace) :
    ¬ Fails g mode e offset (read ++ rest) := by
  intro fails
  obtain ⟨fuel, runs⟩ := derives.exists_run
  obtain ⟨fuel', failing⟩ := fails.exists_run
  obtain ⟨trail, last, matched, -⟩ := runs (max fuel fuel') (by omega) .plain [] .initial
  obtain ⟨failure, failed⟩ := failing (max fuel fuel') (by omega) .plain [] .initial
  rw [matched] at failed
  cases failed

/-! ## How expressions fail -/

namespace Fails

variable {mode : Mode} {gap : Gap} {e first second : Expr ρ} {name : ρ} {offset : Nat}
  {read rest : List Char} {trace : List (Match ρ)}

/-- The end of the text fails while something is left. -/
theorem finish (more : rest ≠ []) : Fails g mode .finish offset rest := by
  refine ⟨1, .plain, [], .initial, .initial, ?_⟩
  simp [run, more]

/-- Nothing of the class stands here. -/
theorem char {members : CharClass} (other : ∀ c, rest.head? = some c → members.contains c = false) :
    Fails g mode (.char members) offset rest := by
  refine ⟨1, .plain, [], .initial, .initial, ?_⟩
  cases rest with
  | nil => rfl
  | cons c rest => simp [run, other c rfl]

/-- A literal fails where the text does not begin with it. -/
theorem literal {text : List Char} (other : ¬ text <+: rest) :
    Fails g mode (.literal text) offset rest := by
  refine ⟨1, .plain, [], .initial, .initial, ?_⟩
  have absent : State.literal? (⟨rest, offset, [], .initial⟩ : State ρ) text = none := by
    cases stands : State.literal? (⟨rest, offset, [], .initial⟩ : State ρ) text with
    | none => rfl
    | some t =>
      have split : rest = text ++ t.rest := (State.literal?_eq_some_iff.mp stands).1
      exact absurd ⟨t.rest, split.symm⟩ other
  rw [run, absent]

theorem rule (body : Fails g ((g.modifier name).inner mode) (g.body name) offset rest) :
    Fails g mode (.rule name) offset rest := by
  obtain ⟨fuel, failing⟩ := body.exists_run
  obtain ⟨last, failed⟩ := failing fuel (Nat.le_refl _) .plain [] .initial
  refine ⟨fuel + 1, .plain, [], .initial, State.fail ⟨rest, offset, [], .initial⟩ last
    ⟨mode, .plain⟩ ((g.modifier name).outer mode) name, ?_⟩
  rw [run]
  simp only [ite_self]
  rw [failed]

theorem inFirst (fails : Fails g mode first offset rest) :
    Fails g mode (.seq gap first second) offset rest := by
  obtain ⟨fuel, failing⟩ := fails.exists_run
  obtain ⟨last, failed⟩ := failing fuel (Nat.le_refl _) .plain [] .initial
  exact ⟨fuel + 1, .plain, [], .initial, last, by rw [run, failed]⟩

/-- The second of two items fails behind the first, with nothing between them. -/
theorem inSecond (closed : ¬ (gap = .loose ∧ mode = .loose))
    (front : Derives g mode first offset read rest trace)
    (fails : Fails g mode second (offset + byteLength read) rest) :
    Fails g mode (.seq gap first second) offset (read ++ rest) := by
  obtain ⟨fuel, runs⟩ := front.exists_run
  obtain ⟨fuel', failing⟩ := fails.exists_run
  obtain ⟨trail, attempts, matched, -⟩ := runs (max fuel fuel') (by omega) .plain [] .initial
  obtain ⟨last, failed⟩ := failing (max fuel fuel') (by omega) .plain trail attempts
  refine ⟨max fuel fuel' + 1, .plain, [], .initial, last, ?_⟩
  rw [run, matched]
  simp only
  rw [if_neg closed, failed]

/-- The second of two items fails behind the first and the trivia between them. -/
theorem behindTrivia {between : List Char} {skipped : List (Match ρ)}
    (front : Derives g .loose first offset read (between ++ rest) trace)
    (trivia : Derives g .loose g.trivia (offset + byteLength read) between rest skipped)
    (fails : Fails g .loose second (offset + byteLength read + byteLength between) rest) :
    Fails g .loose (.seq .loose first second) offset (read ++ (between ++ rest)) := by
  obtain ⟨fuel, runs⟩ := front.exists_run
  obtain ⟨fuel', runs'⟩ := trivia.exists_run
  obtain ⟨fuel'', failing⟩ := fails.exists_run
  let most := max fuel (max fuel' fuel'')
  obtain ⟨trail, attempts, matched, -⟩ := runs most (by omega) .plain [] .initial
  obtain ⟨trail', attempts', matched', -⟩ := runs' most (by omega) .plain trail attempts
  obtain ⟨last, failed⟩ := failing most (by omega) .plain trail' attempts'
  refine ⟨most + 1, .plain, [], .initial, last, ?_⟩
  rw [run, matched]
  simp only
  rw [if_pos ⟨trivial, trivial⟩, matched']
  exact failed

theorem choice (fails : Fails g mode first offset rest)
    (other : Fails g mode second offset rest) :
    Fails g mode (.choice first second) offset rest := by
  obtain ⟨fuel, failing⟩ := fails.exists_run
  obtain ⟨fuel', failing'⟩ := other.exists_run
  obtain ⟨attempts, failed⟩ := failing (max fuel fuel') (by omega) .plain [] .initial
  obtain ⟨last, failed'⟩ := failing' (max fuel fuel') (by omega) .plain [] attempts
  refine ⟨max fuel fuel' + 1, .plain, [], .initial, last, ?_⟩
  rw [run, failed]
  exact failed'

/-- A lookahead fails where what it forbids is derived. -/
theorem not (derives : Derives g mode e offset read rest trace) :
    Fails g mode (.not e) offset (read ++ rest) := by
  obtain ⟨fuel, runs⟩ := derives.exists_run
  obtain ⟨trail, last, matched, -⟩ := runs fuel (Nat.le_refl _) .negative [] .initial
  refine ⟨fuel + 1, .plain, [], .initial, last, ?_⟩
  rw [run]
  simp only [Polarity.flip]
  rw [matched]

end Fails

end ServiceIdl.Peg
