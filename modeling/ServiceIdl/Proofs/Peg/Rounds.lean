import ServiceIdl.Proofs.Peg.Completeness
import ServiceIdl.Proofs.Text.Places

/-!
# Rounds of a repetition

Where there is no trivia, a repetition reads round after round, and stops at a place where no
further round can be read (`Rounds.of_many`). The last half is what makes words end only where
they have to, and the derivations alone do not say it: the failure that a derivation keeps is one
of a round with the gap before it, and here it is taken back to the round itself.

The last section follows a match of a rule, however deep in a trace, to the derivation that it
comes from (`Derives.of_occurs`).
-/

namespace ServiceIdl.Peg

open Text (byteLength Follows)

variable {ρ : Type} {g : Grammar ρ} {mode : Mode} {gap : Gap} {e round first second : Expr ρ}
  {offset : Nat} {read rest : List Char} {trace : List (Match ρ)}

/-! ## Taking derivations apart -/

/-- Without trivia, two items read one behind the other. -/
theorem Derives.items (derives : Derives g mode (.seq gap first second) offset read rest trace)
    (dense : mode ≠ .loose) :
    ∃ a b ms ns, read = a ++ b ∧ Derives g mode first offset a (b ++ rest) ms ∧
      Derives g mode second (offset + byteLength a) b rest ns := by
  cases derives with
  | tight _ front behind => exact ⟨_, _, _, _, rfl, front, behind⟩
  | loose => exact absurd rfl dense

/-- An option reads what its expression reads, or nothing. -/
theorem Derives.ofOpt (derives : Derives g mode (.opt e) offset read rest trace) :
    Derives g mode e offset read rest trace ∨ read = [] := by
  cases derives with
  | left inner => exact .inl inner
  | right _ nothing =>
    cases nothing
    exact .inr rfl

/-- A rule reads what its body reads. -/
theorem Derives.body {name : ρ} (derives : Derives g mode (.rule name) offset read rest trace) :
    ∃ inside, Derives g ((g.modifier name).inner mode) (g.body name) offset read rest inside := by
  cases derives with
  | traced _ inner => exact ⟨_, inner⟩
  | untraced _ inner => exact ⟨_, inner⟩

/-! ## Failures of a repetition -/

/-- A repetition never fails. -/
theorem run_star_ne_failed {fuel : Nat} {ctx : Context} {s : State ρ} {a : Attempts ρ} :
    run g fuel ctx (.star round) s ≠ .failed a := by
  induction fuel generalizing s with
  | zero =>
    intro failed
    cases failed
  | succ fuel ih =>
    intro failed
    simp only [run] at failed
    split at failed
    · exact ih failed
    · cases failed
    · cases failed

/-- In front of a repetition an item fails by itself. -/
theorem Fails.of_beforeStar (fails : Fails g mode (.seq .tight e (.star round)) offset rest) :
    Fails g mode e offset rest := by
  obtain ⟨fuel, polarity, trail, attempts, last, failed⟩ := fails
  cases fuel with
  | zero => cases failed
  | succ fuel =>
    simp only [run] at failed
    split at failed
    · rw [if_neg (by simp)] at failed
      exact absurd failed run_star_ne_failed
    · exact ⟨fuel, polarity, trail, attempts, last, failed⟩

/-- Behind nothing and without trivia an item fails by itself. -/
theorem Fails.of_behindEmpty (fails : Fails g mode (.seq gap .empty e) offset rest)
    (dense : mode ≠ .loose) : Fails g mode e offset rest := by
  obtain ⟨fuel, polarity, trail, attempts, last, failed⟩ := fails
  have closed : ¬ (gap = .loose ∧ mode = .loose) := fun both => dense both.2
  cases fuel with
  | zero => cases failed
  | succ fuel =>
    simp only [run] at failed
    cases fuel with
    | zero => cases failed
    | succ fuel =>
      simp only [run, if_neg closed] at failed
      exact ⟨_, polarity, trail, attempts, last, failed⟩

/-! ## Rounds -/

/-- The expression is read round after round, up to a place where it fails. -/
inductive Rounds (g : Grammar ρ) (mode : Mode) (e : Expr ρ) :
    Nat → List Char → List Char → Prop
  | stop {offset : Nat} {rest : List Char} :
    Fails g mode e offset rest → Rounds g mode e offset [] rest
  | round {offset : Nat} {a b rest : List Char} {trace : List (Match ρ)} :
    Derives g mode e offset a (b ++ rest) trace →
    Rounds g mode e (offset + byteLength a) b rest → Rounds g mode e offset (a ++ b) rest

namespace Rounds

/-- A repetition outside of loose mode, taken apart into its rounds. -/
theorem of_star (derives : Derives g mode (.star (.seq gap .empty e)) offset read rest trace)
    (dense : mode ≠ .loose) : Rounds g mode e offset read rest := by
  generalize repeated : Expr.star (.seq gap .empty e) = star at derives
  induction derives with
  | stop fails =>
    cases repeated
    exact .stop (fails.of_behindEmpty dense)
  | round head _ _ ih =>
    cases repeated
    obtain ⟨_, a, _, _, rfl, nothing, one⟩ := head.items dense
    cases nothing
    rw [List.nil_append]
    exact .round one (ih dense rfl)
  | _ => cases repeated

/-- A repetition reads as many rounds as there are. -/
theorem of_many (derives : Derives g mode (.many gap e) offset read rest trace)
    (dense : mode ≠ .loose) : Rounds g mode e offset read rest := by
  cases derives with
  | left rounds =>
    obtain ⟨a, b, _, _, rfl, head, others⟩ := rounds.items dense
    exact .round head (of_star others dense)
  | right fails nothing =>
    cases nothing
    exact .stop fails.of_beforeStar

/-- Behind the last round no other one can be read. -/
theorem fails (rounds : Rounds g mode e offset read rest) :
    ∃ offset, Fails g mode e offset rest := by
  induction rounds with
  | stop fails => exact ⟨_, fails⟩
  | round _ _ ih => exact ih

/-- What the rounds read is put together of what each of them reads. -/
theorem exists_pieces {holds : List Char → Prop} (rounds : Rounds g mode e offset read rest)
    (each : ∀ {offset a rest trace}, Derives g mode e offset a rest trace → holds a) :
    ∃ pieces : List (List Char), read = pieces.flatten ∧ ∀ piece ∈ pieces, holds piece := by
  induction rounds with
  | stop => exact ⟨[], rfl, List.forall_mem_nil _⟩
  | round head _ ih =>
    obtain ⟨pieces, rfl, others⟩ := ih
    exact ⟨_ :: pieces, rfl, List.forall_mem_cons.mpr ⟨each head, others⟩⟩

/-- What holds of all characters of a round holds of all characters that the rounds read. -/
theorem forall_mem {holds : Char → Prop} (rounds : Rounds g mode e offset read rest)
    (each : ∀ {offset a rest trace}, Derives g mode e offset a rest trace → ∀ c ∈ a, holds c) :
    ∀ c ∈ read, holds c := by
  induction rounds with
  | stop => simp
  | round head _ ih => exact List.forall_mem_append.mpr ⟨each head, ih⟩

/-- Characters that are read one by one up to a mark have no earlier mark among them, and none
that begins there and ends inside the last one. -/
theorem eq_nil_of_mark {mark : List Char}
    (rounds : Rounds g mode (.seq gap (.not (.literal mark)) (.char .any)) offset read
      (mark ++ rest)) (dense : mode ≠ .loose) {front behind : List Char}
    (split : read ++ mark = front ++ (mark ++ behind)) : behind = [] := by
  generalize stands : mark ++ rest = after at rounds
  -- Each round looks for the mark first, so only the place behind the last round can have it.
  induction rounds generalizing front with
  | stop =>
    have length := congrArg List.length split
    simp only [List.length_append, List.length_nil] at length
    exact List.eq_nil_of_length_eq_zero (by omega)
  | @round offset a b after _ head _ ih =>
    obtain ⟨_, _, _, _, rfl, ahead, one⟩ := head.items dense
    cases ahead with
    | absent unmarked =>
      cases one with
      | @char _ _ _ c =>
        cases front with
        | cons d front => exact ih (List.cons.inj split).2 stands
        | nil =>
          have here : [c] ++ (b ++ after) = mark ++ (behind ++ rest) := by
            rw [← stands, ← List.append_assoc, ← List.append_assoc, ← List.append_assoc]
            exact congrArg (· ++ rest) split
          rw [here] at unmarked
          exact absurd unmarked Derives.literal.not_fails

end Rounds

/-! ## Matches in a trace -/

/-- The match is one of these, or inside one of these. -/
inductive Match.Occurs (m : Match ρ) : List (Match ρ) → Prop
  | here {ms : List (Match ρ)} : m ∈ ms → Occurs m ms
  | inside {name : ρ} {start stop : Nat} {children ms : List (Match ρ)} :
    .mk name start stop children ∈ ms → Occurs m children → Occurs m ms

theorem Match.occurs_append {m : Match ρ} {ms ns : List (Match ρ)} :
    m.Occurs (ms ++ ns) ↔ m.Occurs ms ∨ m.Occurs ns := by
  constructor
  · intro occurs
    cases occurs with
    | here member => exact (List.mem_append.mp member).imp .here .here
    | inside member below =>
      exact (List.mem_append.mp member).imp (.inside · below) (.inside · below)
  · rintro (occurs | occurs)
    · cases occurs with
      | here member => exact .here (List.mem_append_left ns member)
      | inside member below => exact .inside (List.mem_append_left ns member) below
    · cases occurs with
      | here member => exact .here (List.mem_append_right ms member)
      | inside member below => exact .inside (List.mem_append_right ms member) below

theorem Match.not_occurs_nil {m : Match ρ} : ¬ m.Occurs [] := by
  intro occurs
  cases occurs with
  | here member => cases member
  | inside member => cases member

/-- The match is that of a rule whose body reads what stands between its offsets. -/
def Match.IsRead (g : Grammar ρ) (text : List Char) : Match ρ → Prop
  | .mk name start stop children =>
    ∃ mode read rest, Follows text start (read ++ rest) ∧ stop = start + byteLength read ∧
      Derives g ((g.modifier name).inner mode) (g.body name) start read rest children

/-- Every match in the trace of a derivation was read by its rule where it is. -/
theorem Derives.of_occurs {text : List Char} {m : Match ρ}
    (derives : Derives g mode e offset read rest trace)
    (follows : Follows text offset (read ++ rest)) (occurs : m.Occurs trace) :
    m.IsRead g text := by
  -- By induction on the derivation; only a rule with a trace adds a match.
  induction derives with
  | empty | start | finish | char | literal | stop | absent =>
    exact absurd occurs Match.not_occurs_nil
  | @traced mode name offset read rest inside _ body ih =>
    cases occurs with
    | here member =>
      cases List.mem_singleton.mp member
      exact ⟨mode, read, rest, follows, rfl, body⟩
    | inside member below =>
      cases List.mem_singleton.mp member
      exact ih follows below
  | untraced _ _ ih => exact ih follows occurs
  | tight _ _ _ front behind | round _ _ front behind =>
    rw [List.append_assoc] at follows
    rcases Match.occurs_append.mp occurs with here | there
    · exact front follows here
    · exact behind follows.skip there
  | loose _ _ _ front between behind =>
    simp only [List.append_assoc] at follows
    rcases Match.occurs_append.mp occurs with here | later
    · exact front follows here
    · rcases Match.occurs_append.mp later with skipped | there
      · exact between follows.skip skipped
      · exact behind follows.skip.skip there
  | left _ ih => exact ih follows occurs
  | right _ _ ih => exact ih follows occurs

end ServiceIdl.Peg
