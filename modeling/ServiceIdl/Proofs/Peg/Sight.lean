import ServiceIdl.Proofs.Peg.Completeness

/-!
# What one character ahead settles

Most alternatives of a grammar fail at the first character that they look at. A
`Sight` says what the next character, or the end of the text, settles about an
expression: that every run fails there, or that it matches the empty text. It is
computed along the expression, down to a given depth of rules, so a failure at a known
character is a matter of computation (`Grammar.fails_of_refuses`).

A sight never claims more than is true, but it may claim too little: what hangs on a
second character, or on rules below the depth, is left open.
-/

namespace ServiceIdl.Peg

open Text (byteLength)

variable {ρ : Type}

/-- What the next character settles about an expression. -/
structure Sight where
  /-- The expression fails. -/
  refuses : Bool
  /-- The expression matches the empty text and traces nothing. -/
  skips : Bool
deriving DecidableEq

/-- What the next character settles about an expression. The rules `refused` fail in
front of it; if it is `bare`, no trivia begin with it. -/
def Expr.sight (refused : ρ → Bool) (bare : Bool) (next : Option Char) : Expr ρ → Sight
  | .empty => ⟨false, true⟩
  | .start => ⟨false, false⟩
  | .finish => ⟨next.isSome, next.isNone⟩
  | .char members => ⟨!next.any members.contains, false⟩
  | .literal [] => ⟨false, true⟩
  | .literal (c :: _) => ⟨next != some c, false⟩
  | .rule name => ⟨refused name, false⟩
  | .seq gap first second =>
    let front := first.sight refused bare next
    let behind := second.sight refused bare next
    let passes := front.skips && (gap = .tight || bare)
    ⟨front.refuses || passes && behind.refuses, passes && behind.skips⟩
  | .choice first second =>
    let front := first.sight refused bare next
    let other := second.sight refused bare next
    ⟨front.refuses && other.refuses, front.skips || front.refuses && other.skips⟩
  | .star round => ⟨false, (round.sight refused bare next).refuses⟩
  | .not e =>
    let inner := e.sight refused bare next
    ⟨inner.skips, inner.refuses⟩

namespace Grammar

/-- Whether a rule fails in front of the next character, as far as its body and the
rules in it show down to a depth. -/
def refuses (g : Grammar ρ) (next : Option Char) : Nat → ρ → Bool
  | 0, _ => false
  | depth + 1, name =>
    let refused := g.refuses next depth
    ((g.body name).sight refused (refused g.blank && refused g.comment) next).refuses

/-- What the next character settles about an expression, with rules opened down to a
depth. -/
def sight (g : Grammar ρ) (next : Option Char) (depth : Nat) (e : Expr ρ) : Sight :=
  let refused := g.refuses next depth
  e.sight refused (refused g.blank && refused g.comment) next

end Grammar

/-! ## Sights are true -/

variable {g : Grammar ρ} {next : Option Char}

/-- What a sight says of an expression is so in front of every text that begins with
the character. -/
structure Sight.Holds (g : Grammar ρ) (next : Option Char) (e : Expr ρ) (sight : Sight) : Prop where
  fails : sight.refuses = true → ∀ mode offset rest, rest.head? = next →
    Fails g mode e offset rest
  derives : sight.skips = true → ∀ mode offset rest, rest.head? = next →
    Derives g mode e offset [] rest []

/-- Items of which the first matches the empty text leave the second where it was. -/
theorem Sight.Holds.seq {gap : Gap} {first second : Expr ρ} {front behind : Sight} {bare : Bool}
    (trivia : bare = true → ∀ offset rest, rest.head? = next →
      Derives g .loose g.trivia offset [] rest [])
    (before : front.Holds g next first) (after : behind.Holds g next second) :
    Sight.Holds g next (.seq gap first second)
      ⟨front.refuses || (front.skips && (gap = .tight || bare)) && behind.refuses,
        (front.skips && (gap = .tight || bare)) && behind.skips⟩ := by
  constructor
  · intro refuses mode offset rest ahead
    rcases Bool.or_eq_true_iff.mp refuses with frontRefuses | both
    · exact .inFirst (before.fails frontRefuses mode offset rest ahead)
    · simp only [Bool.and_eq_true, Bool.or_eq_true, decide_eq_true_eq] at both
      rcases both with ⟨⟨skips, passes⟩, refuses⟩
      have empty := before.derives skips
      have failing := after.fails refuses
      by_cases open' : gap = .loose ∧ mode = .loose
      · rcases open' with ⟨rfl, rfl⟩
        have nothing := trivia (passes.resolve_left (by simp))
        have last : Fails g .loose second (offset + byteLength [] + byteLength []) rest :=
          failing .loose offset rest ahead
        exact .behindTrivia (empty .loose offset rest ahead) (nothing offset rest ahead) last
      · exact .inSecond open' (empty mode offset rest ahead) (failing mode offset rest ahead)
  · intro both mode offset rest ahead
    simp only [Bool.and_eq_true, Bool.or_eq_true, decide_eq_true_eq] at both
    rcases both with ⟨⟨skips, passes⟩, skipsToo⟩
    have empty := before.derives skips
    have emptyToo := after.derives skipsToo
    by_cases open' : gap = .loose ∧ mode = .loose
    · rcases open' with ⟨rfl, rfl⟩
      have nothing := trivia (passes.resolve_left (by simp))
      have last : Derives g .loose second (offset + byteLength [] + byteLength []) [] rest [] :=
        emptyToo .loose offset rest ahead
      exact .loose (empty .loose offset rest ahead) (nothing offset rest ahead) last
    · have last : Derives g mode second (offset + byteLength []) [] rest [] :=
        emptyToo mode offset rest ahead
      exact .tight open' (empty mode offset rest ahead) last

/-- What an expression is said to do before the next character it does, if the rules and the
trivia do what is said of them. -/
theorem Expr.holds_sight {refused : ρ → Bool} {bare : Bool}
    (rules : ∀ name, refused name = true → ∀ mode offset rest, rest.head? = next →
      Fails g mode (.rule name) offset rest)
    (trivia : bare = true → ∀ offset rest, rest.head? = next →
      Derives g .loose g.trivia offset [] rest [])
    (e : Expr ρ) : (e.sight refused bare next).Holds g next e := by
  induction e with
  | empty => exact ⟨nofun, fun _ _ _ _ _ => .empty⟩
  | start => exact ⟨nofun, nofun⟩
  | finish =>
    constructor
    · intro more mode offset rest ahead
      refine .finish ?_
      rintro rfl
      rw [← ahead] at more
      cases more
    · intro none mode offset rest ahead
      cases rest with
      | nil => exact .finish
      | cons =>
        rw [← ahead] at none
        cases none
  | char members =>
    refine ⟨?_, nofun⟩
    intro other mode offset rest ahead
    refine .char fun c head => ?_
    rw [← ahead, head] at other
    simpa [Expr.sight] using other
  | literal text =>
    cases text with
    | nil => exact ⟨nofun, fun _ _ _ _ _ => .literal⟩
    | cons c text =>
      refine ⟨?_, nofun⟩
      intro other mode offset rest ahead
      refine .literal ?_
      rintro ⟨behind, rfl⟩
      rw [← ahead] at other
      simp [Expr.sight] at other
  | rule name => exact ⟨rules name, nofun⟩
  | seq gap first second before after => exact before.seq trivia after
  | choice first second before after =>
    constructor
    · intro both mode offset rest ahead
      obtain ⟨refuses, refusesToo⟩ := Bool.and_eq_true_iff.mp both
      exact .choice (before.fails refuses mode offset rest ahead)
        (after.fails refusesToo mode offset rest ahead)
    · intro either mode offset rest ahead
      rcases Bool.or_eq_true_iff.mp either with skips | both
      · exact .left (before.derives skips mode offset rest ahead)
      · obtain ⟨refuses, skips⟩ := Bool.and_eq_true_iff.mp both
        exact .right (before.fails refuses mode offset rest ahead)
          (after.derives skips mode offset rest ahead)
  | star round inner =>
    refine ⟨nofun, ?_⟩
    intro refuses mode offset rest ahead
    exact .stop (inner.fails refuses mode offset rest ahead)
  | not e inner =>
    constructor
    · intro skips mode offset rest ahead
      exact .not (inner.derives skips mode offset rest ahead)
    · intro refuses mode offset rest ahead
      exact .absent (inner.fails refuses mode offset rest ahead)

/-- No trivia begin where neither a blank nor a comment does. -/
theorem derives_trivia_nil {offset : Nat} {rest : List Char}
    (blank : Fails g .loose (.rule g.blank) offset rest)
    (comment : Fails g .loose (.rule g.comment) offset rest) :
    Derives g .loose g.trivia offset [] rest [] :=
  .tight (by simp) (.stop blank) (.stop (.inFirst comment))

namespace Grammar

/-- A rule that is refused fails. -/
theorem fails_of_refuses {depth : Nat} {name : ρ} (refuses : g.refuses next depth name = true)
    {mode : Mode} {offset : Nat} {rest : List Char} (ahead : rest.head? = next) :
    Fails g mode (.rule name) offset rest := by
  induction depth generalizing name mode offset rest with
  | zero => cases refuses
  | succ depth ih =>
    have trivia : (g.refuses next depth g.blank && g.refuses next depth g.comment) = true →
        ∀ offset rest, rest.head? = next → Derives g .loose g.trivia offset [] rest [] := by
      intro bare offset rest ahead
      obtain ⟨blank, comment⟩ := Bool.and_eq_true_iff.mp bare
      exact derives_trivia_nil (ih blank ahead) (ih comment ahead)
    have holds := Expr.holds_sight (fun _ refused _ _ _ ahead => ih refused ahead) trivia
      (g.body name)
    exact .rule (holds.fails refuses _ _ _ ahead)

/-- What is said of an expression is right, however deep its rules are looked into. -/
theorem holds_sight (g : Grammar ρ) (next : Option Char) (depth : Nat) (e : Expr ρ) :
    (g.sight next depth e).Holds g next e := by
  refine Expr.holds_sight ?_ ?_ e
  · intro name refused mode offset rest ahead
    exact fails_of_refuses refused ahead
  · intro bare offset rest ahead
    obtain ⟨blank, comment⟩ := Bool.and_eq_true_iff.mp bare
    exact derives_trivia_nil (fails_of_refuses blank ahead) (fails_of_refuses comment ahead)

end Grammar

end ServiceIdl.Peg
