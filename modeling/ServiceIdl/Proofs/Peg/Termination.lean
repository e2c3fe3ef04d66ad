import ServiceIdl.Proofs.Peg.Calls

/-!
# Runs that end

A run ends with enough fuel if its calls cannot go on without reading. A `Ranking` of a
grammar bounds how deep they go before a character is read: each rule has a rank above
the height of its body, where the height of an expression counts what is called in front
of the first character, and what is called behind one only as far as it exceeds `step`.
Every round of a repetition has to read.

The budget of a call is `step` units for each character that is left, and the height of its
expression besides. Whatever a call calls has a smaller budget (`Ranking.budget_of_calls`). So
chains of calls end, no run with that much fuel is exhausted (`Ranking.run_ne_exhausted`), and
a rule that is called again further down a chain stands behind a character that was read in
between (`Ranking.offset_lt_of_chain`).
-/

namespace ServiceIdl.Peg

variable {ρ : Type} {g : Grammar ρ}

/-! ## Expressions that read -/

/-- Whether an expression reads a character wherever it matches, if the rules do of which
`rules` says so. -/
def Expr.reads (rules : ρ → Bool) : Expr ρ → Bool
  | .char _ => true
  | .literal text => !text.isEmpty
  | .rule name => rules name
  | .seq _ first second => first.reads rules || second.reads rules
  | .choice first second => first.reads rules && second.reads rules
  | .empty | .start | .finish | .star _ | .not _ => false

/-- Whether every round of the repetitions in an expression reads. -/
def Expr.roundsRead (rules : ρ → Bool) : Expr ρ → Bool
  | .star round => round.reads rules && round.roundsRead rules
  | .seq _ first second | .choice first second =>
    first.roundsRead rules && second.roundsRead rules
  | .not e => e.roundsRead rules
  | .empty | .start | .finish | .char _ | .literal _ | .rule _ => true

/-- An expression marked as reading reads at least one character. -/
theorem Derives.ne_nil_of_reads {rules : ρ → Bool}
    (sound : ∀ name, rules name = true → (g.body name).reads rules = true) {mode : Mode}
    {e : Expr ρ} {offset : Nat} {read rest : List Char} {trace : List (Match ρ)}
    (derives : Derives g mode e offset read rest trace) (reads : e.reads rules = true) :
    read ≠ [] := by
  induction derives with
  | empty | start | finish | stop | round | absent => cases reads
  | char => simp
  | literal =>
    intro same
    rw [same] at reads
    cases reads
  | traced _ _ ih | untraced _ _ ih => exact ih (sound _ reads)
  | tight _ _ _ first second =>
    intro same
    rw [List.append_eq_nil_iff] at same
    rcases Bool.or_eq_true_iff.mp reads with front | behind
    · exact first front same.1
    · exact second behind same.2
  | loose _ _ _ first _ second =>
    intro same
    rw [List.append_eq_nil_iff, List.append_eq_nil_iff] at same
    rcases Bool.or_eq_true_iff.mp reads with front | behind
    · exact first front same.1
    · exact second behind same.2.2
  | left _ ih => exact ih (Bool.and_eq_true_iff.mp reads).1
  | right _ _ ih => exact ih (Bool.and_eq_true_iff.mp reads).2

/-! ## Heights and ranks -/

/-- How deep the calls go before a character is read, with the ranks of the rules and the
height of trivia. Behind a character there are `step` calls more to spend. -/
def Expr.height (rules : ρ → Bool) (rank : ρ → Nat) (trivia step : Nat) : Expr ρ → Nat
  | .rule name => rank name
  | .seq gap first second =>
    let behind := max (if gap = .loose then trivia else 0) (second.height rules rank trivia step)
    1 + max (first.height rules rank trivia step)
      (if first.reads rules then behind - step else behind)
  | .choice first second =>
    1 + max (first.height rules rank trivia step) (second.height rules rank trivia step)
  | .star e | .not e => 1 + e.height rules rank trivia step
  | .empty | .start | .finish | .char _ | .literal _ => 1

/-- A rank for each rule of a grammar that falls with every call in front of the first
character. -/
structure Ranking (g : Grammar ρ) where
  /-- The calls that each character pays for. -/
  step : Nat
  /-- The height of trivia, at most. -/
  trivia : Nat
  /-- The rules that read a character wherever they match. -/
  reads : ρ → Bool
  rank : ρ → Nat
  step_pos : 0 < step
  reads_body : ∀ name, reads name = true → (g.body name).reads reads = true
  rounds_body : ∀ name, (g.body name).roundsRead reads = true
  height_body : ∀ name, (g.body name).height reads rank trivia step < rank name
  rounds_trivia : g.trivia.roundsRead reads = true
  height_trivia : g.trivia.height reads rank trivia step ≤ trivia

namespace Ranking

variable (r : Ranking g)

/-- The height of an expression in the ranking. -/
def height (e : Expr ρ) : Nat := e.height r.reads r.rank r.trivia r.step

theorem height_pos (e : Expr ρ) : 0 < r.height e := by
  cases e with
  | rule name =>
    have below := r.height_body name
    change 0 < r.rank name
    omega
  | empty | start | finish | char | literal => exact Nat.one_pos
  | seq | choice | star | not =>
    simp only [height, Expr.height]
    omega

/-- A match leaves no more than there was, and less if the expression reads. -/
theorem length_le_of_run {fuel : Nat} {ctx : Context} {e : Expr ρ} {s t : State ρ}
    (matched : run g fuel ctx e s = .matched t) :
    t.rest.length ≤ s.rest.length ∧
      (e.reads r.reads = true → t.rest.length < s.rest.length) := by
  obtain ⟨read, trace, split, -, derives⟩ := exists_derives_of_run matched
  have lengths : s.rest.length = read.length + t.rest.length := by
    rw [split, List.length_append]
  refine ⟨by omega, fun reads => ?_⟩
  have some := List.length_pos_iff.mpr (derives.ne_nil_of_reads r.reads_body reads)
  omega

/-- What is paid for in front of a match is enough for what is called behind it. -/
theorem budget_of_run {fuel budget height : Nat} {ctx : Context} {e : Expr ρ} {s t : State ρ}
    (matched : run g fuel ctx e s = .matched t)
    (enough : r.step * s.rest.length +
      (if e.reads r.reads then height - r.step else height) ≤ budget) :
    r.step * t.rest.length + height ≤ budget := by
  obtain ⟨le, reading⟩ := r.length_le_of_run matched
  have stays : r.step * t.rest.length ≤ r.step * s.rest.length := Nat.mul_le_mul_left _ le
  by_cases reads : e.reads r.reads = true
  · rw [if_pos reads] at enough
    have less : r.step * (t.rest.length + 1) ≤ r.step * s.rest.length :=
      Nat.mul_le_mul_left _ (reading reads)
    rw [Nat.mul_add, Nat.mul_one] at less
    omega
  · rw [if_neg reads] at enough
    omega

/-- The fuel that is enough for a call: for each character that is left, and for the height of
the expression. -/
def budget (c : Call ρ) : Nat := r.step * c.state.rest.length + r.height c.expr

/-- The height of what stands behind the first of two items: trivia, if the gap lets it in, and
the second item. -/
def heightBehind (gap : Gap) (second : Expr ρ) : Nat :=
  max (if gap = .loose then r.trivia else 0) (r.height second)

/-- Behind a part that reads, the height of what follows counts one step less. -/
theorem height_seq (gap : Gap) (first second : Expr ρ) :
    r.height (.seq gap first second) = 1 + max (r.height first)
      (if first.reads r.reads then r.heightBehind gap second - r.step
        else r.heightBehind gap second) := rfl

/-- Trivia between loose items are no higher than what stands behind the first item. -/
theorem height_trivia_le {gap : Gap} (loose : gap = .loose) (second : Expr ρ) :
    r.height g.trivia ≤ r.heightBehind gap second := by
  have trivia : r.height g.trivia ≤ r.trivia := r.height_trivia
  rw [heightBehind, if_pos loose]
  omega

theorem height_second_le (gap : Gap) (second : Expr ρ) :
    r.height second ≤ r.heightBehind gap second := Nat.le_max_right ..

/-- Behind the first of two items, there is enough for what is called there. -/
theorem lt_budget_of_run (gap : Gap) {fuel : Nat} {ctx : Context} {first : Expr ρ}
    (second : Expr ρ) {s t : State ρ} (front : run g fuel ctx first s = .matched t) :
    r.step * t.rest.length + r.heightBehind gap second <
      r.budget ⟨ctx, .seq gap first second, s⟩ := by
  have height := r.height_seq gap first second
  have paid := r.budget_of_run front (Nat.le_refl (r.step * s.rest.length +
    if first.reads r.reads then r.heightBehind gap second - r.step
      else r.heightBehind gap second))
  simp only [budget]
  omega

/-- A call makes calls with smaller budgets: their expressions are of smaller height, or their
text is a character shorter. -/
theorem budget_of_calls {c d : Call ρ} (calls : Calls g c d)
    (rounds : c.expr.roundsRead r.reads = true) :
    d.expr.roundsRead r.reads = true ∧ r.budget d < r.budget c := by
  cases calls with
  | @rule ctx name s =>
    have below : r.height (g.body name) < r.height (.rule name) := r.height_body name
    have entered (traced : Bool) :
        (if traced then { s with trail := [] } else s).rest = s.rest := by
      cases traced <;> rfl
    refine ⟨r.rounds_body name, ?_⟩
    simp only [budget, entered]
    omega
  | @first ctx gap first second s =>
    rw [Expr.roundsRead, Bool.and_eq_true] at rounds
    have height := r.height_seq gap first second
    refine ⟨rounds.1, ?_⟩
    simp only [budget]
    omega
  | @trivia ctx gap first second s t fuel loose front =>
    have behind := r.lt_budget_of_run gap second front
    have trivia := r.height_trivia_le loose.1 second
    refine ⟨r.rounds_trivia, ?_⟩
    simp only [budget] at behind ⊢
    omega
  | @behindTrivia ctx gap first second s t u fuel loose front skipped =>
    rw [Expr.roundsRead, Bool.and_eq_true] at rounds
    have behind := r.lt_budget_of_run gap second front
    have last := r.height_second_le gap second
    have stays : r.step * u.rest.length ≤ r.step * t.rest.length :=
      Nat.mul_le_mul_left _ (r.length_le_of_run skipped).1
    refine ⟨rounds.2, ?_⟩
    simp only [budget] at behind ⊢
    omega
  | @second ctx gap first second s t fuel tight front =>
    rw [Expr.roundsRead, Bool.and_eq_true] at rounds
    have behind := r.lt_budget_of_run gap second front
    have last := r.height_second_le gap second
    refine ⟨rounds.2, ?_⟩
    simp only [budget] at behind ⊢
    omega
  | @left ctx first second s =>
    rw [Expr.roundsRead, Bool.and_eq_true] at rounds
    have height : r.height (.choice first second) =
        1 + max (r.height first) (r.height second) := rfl
    refine ⟨rounds.1, ?_⟩
    simp only [budget]
    omega
  | @right ctx first second s a fuel failed =>
    rw [Expr.roundsRead, Bool.and_eq_true] at rounds
    have height : r.height (.choice first second) =
        1 + max (r.height first) (r.height second) := rfl
    refine ⟨rounds.2, ?_⟩
    simp only [budget]
    omega
  | @round ctx e s =>
    rw [Expr.roundsRead, Bool.and_eq_true] at rounds
    have height : r.height (.star e) = 1 + r.height e := rfl
    refine ⟨rounds.2, ?_⟩
    simp only [budget]
    omega
  | @again ctx e s t fuel front =>
    have reading : e.reads r.reads = true := (Bool.and_eq_true_iff.mp rounds).1
    have less : r.step * (t.rest.length + 1) ≤ r.step * s.rest.length :=
      Nat.mul_le_mul_left _ ((r.length_le_of_run front).2 reading)
    rw [Nat.mul_add, Nat.mul_one] at less
    have positive := r.step_pos
    refine ⟨rounds, ?_⟩
    simp only [budget]
    omega
  | @absent ctx e s =>
    have height : r.height (.not e) = 1 + r.height e := rfl
    refine ⟨rounds, ?_⟩
    simp only [budget]
    omega

/-! ## Runs and chains of calls -/

/-- With fuel for each character and for the height of the expression, no run is
exhausted. -/
theorem run_ne_exhausted {fuel : Nat} {ctx : Context} {e : Expr ρ} {s : State ρ}
    (rounds : e.roundsRead r.reads = true)
    (enough : r.step * s.rest.length + r.height e ≤ fuel) : run g fuel ctx e s ≠ .exhausted := by
  -- An exhausted run has made an exhausted call, with one unit of fuel less and a smaller budget.
  induction fuel generalizing ctx e s with
  | zero =>
    have positive := r.height_pos e
    omega
  | succ fuel ih =>
    intro exhausted
    obtain ⟨⟨ctx', e', s'⟩, calls, inner⟩ := Calls.exists_of_exhausted exhausted
    obtain ⟨rounds', less⟩ := r.budget_of_calls calls rounds
    simp only [budget] at less
    have enough' : r.step * s'.rest.length + r.height e' ≤ fuel := by omega
    exact ih rounds' enough' inner

/-- What is known of a call is known of all calls down its chains: their rounds read. -/
theorem roundsRead_of_chain {c d : Call ρ} (chain : Relation.ReflTransGen (Calls g) c d)
    (rounds : c.expr.roundsRead r.reads = true) : d.expr.roundsRead r.reads = true := by
  induction chain with
  | refl => exact rounds
  | tail _ calls ih => exact (r.budget_of_calls calls ih).1

/-- Down a chain of calls, budgets fall. -/
theorem budget_lt_of_chain {c d : Call ρ} (chain : Relation.TransGen (Calls g) c d)
    (rounds : c.expr.roundsRead r.reads = true) : r.budget d < r.budget c := by
  induction chain with
  | single calls => exact (r.budget_of_calls calls rounds).2
  | tail chain calls ih =>
    have rounds' := r.roundsRead_of_chain chain.to_reflTransGen rounds
    exact Nat.lt_trans (r.budget_of_calls calls rounds').2 ih

/-- Chains of calls end. -/
theorem acc_of_roundsRead {c : Call ρ} (rounds : c.expr.roundsRead r.reads = true) :
    Acc (fun d c => Calls g c d) c := by
  induction size : r.budget c using Nat.strongRecOn generalizing c with
  | ind budget ih =>
    constructor
    intro d calls
    obtain ⟨rounds', less⟩ := r.budget_of_calls calls rounds
    exact ih (r.budget d) (size ▸ less) rounds' rfl

include r in
/-- A rule that is called again down a chain of its calls stands behind a character that was
read in between. -/
theorem offset_lt_of_chain {ctx ctx' : Context} {name : ρ} {s t : State ρ}
    (chain : Relation.TransGen (Calls g) ⟨ctx, .rule name, s⟩ ⟨ctx', .rule name, t⟩) :
    s.offset < t.offset := by
  have less := r.budget_lt_of_chain chain rfl
  obtain ⟨read, passes⟩ := Calls.passes_of_reflTransGen chain.to_reflTransGen
  simp only [budget, Nat.add_lt_add_iff_right] at less
  exact passes.offset_lt (Nat.lt_of_mul_lt_mul_left less)

/-- A round of a repetition that is called reads a character, wherever it matches. -/
theorem offset_lt_of_repeats {c d : Call ρ} (rounds : c.expr.roundsRead r.reads = true)
    (chain : Relation.ReflTransGen (Calls g) c d) {e : Expr ρ} (repeats : d.Repeats e)
    {fuel : Nat} {ctx : Context} {s t : State ρ} (matched : run g fuel ctx e s = .matched t) :
    s.offset < t.offset := by
  have known := r.roundsRead_of_chain chain rounds
  have reading : e.reads r.reads = true := by
    rcases repeats with star | ⟨gap, many⟩
    · rw [star] at known
      exact (Bool.and_eq_true_iff.mp known).1
    · rw [many] at known
      simp only [Expr.many, Expr.opt, Expr.roundsRead, Expr.reads, Bool.and_eq_true,
        Bool.false_or] at known
      exact known.1.2.1
  obtain ⟨read, passes⟩ := State.Passes.of_run matched
  exact passes.offset_lt ((r.length_le_of_run matched).2 reading)

end Ranking

end ServiceIdl.Peg
