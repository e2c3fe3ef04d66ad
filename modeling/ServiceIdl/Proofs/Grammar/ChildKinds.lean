import ServiceIdl.Grammar.Table
import ServiceIdl.Proofs.Peg.Derivation
import ServiceIdl.Proofs.Syntax.Forest

/-!
# The children that a rule allows

The body of a rule is also a grammar for the nodes directly inside a match of it:
`Generates mode e kinds` says that the expression `e` allows children of these
kinds, in this order. A rule that leaves a trace stands for one child, or for none
if its kind is trivia; a rule that leaves no trace stands for the children that its
own body allows. Texts, classes and lookaheads allow none.

Every derivation keeps to this (`Generates.of_derives`). What a body demands or
admits can be decided on the expression (`Expr.demands`, `Expr.rules`), and every
row of kinds that it generates obeys (`Generates.exists_mem_of_demands`).
-/

namespace ServiceIdl

open Peg (Expr Mode Derives Match)

/-! ## Rows of kinds -/

/-- The expression allows children of these kinds when it is matched in a mode. -/
inductive Generates : Mode → Expr Rule → List Kind → Prop
  | empty {mode : Mode} : Generates mode .empty []
  | start {mode : Mode} : Generates mode .start []
  | finish {mode : Mode} : Generates mode .finish []
  | char {mode : Mode} {members : Peg.CharClass} : Generates mode (.char members) []
  | literal {mode : Mode} {text : List Char} : Generates mode (.literal text) []
  | not {mode : Mode} {e : Expr Rule} : Generates mode (.not e) []
  | trivia {mode : Mode} {name : Rule} :
    (Kind.ofRule name).isTrivia = true → Generates mode (.rule name) []
  | node {mode : Mode} {name : Rule} :
    (Kind.ofRule name).isTrivia = false → name.modifier.outer mode ≠ .atomic →
    Generates mode (.rule name) [.ofRule name]
  | inlined {mode : Mode} {name : Rule} {kinds : List Kind} :
    name.modifier.outer mode = .atomic →
    Generates (name.modifier.inner mode) name.body kinds → Generates mode (.rule name) kinds
  | seq {mode : Mode} {gap : Peg.Gap} {first second : Expr Rule} {front behind : List Kind} :
    Generates mode first front → Generates mode second behind →
    Generates mode (.seq gap first second) (front ++ behind)
  | left {mode : Mode} {first second : Expr Rule} {kinds : List Kind} :
    Generates mode first kinds → Generates mode (.choice first second) kinds
  | right {mode : Mode} {first second : Expr Rule} {kinds : List Kind} :
    Generates mode second kinds → Generates mode (.choice first second) kinds
  | stop {mode : Mode} {round : Expr Rule} : Generates mode (.star round) []
  | round {mode : Mode} {round : Expr Rule} {front behind : List Kind} :
    Generates mode round front → Generates mode (.star round) behind →
    Generates mode (.star round) (front ++ behind)

/-- The rules that an expression calls, apart from those in lookaheads. -/
def Peg.Expr.rules {ρ : Type} : Expr ρ → List ρ
  | .rule name => [name]
  | .seq _ first second | .choice first second => first.rules ++ second.rules
  | .star round => round.rules
  | _ => []

/-- The rules whose nodes stay out of trees. -/
def Rule.isTrivia (name : Rule) : Bool := (Kind.ofRule name).isTrivia

/-- Trivia consists of trivia. -/
theorem Rule.rules_body_of_isTrivia {name : Rule} (trivial : name.isTrivia = true) :
    ∀ part ∈ name.body.rules, part.isTrivia = true := by
  have checked : ∀ name ∈ Rule.all, name.isTrivia = true →
      ∀ part ∈ name.body.rules, part.isTrivia = true := by
    decide
  exact checked name (Rule.mem_all name) trivial

/-- Where only trivia is called, no node is made. -/
theorem Forest.ofMatches_eq_nil_of_derives {mode : Mode} {e : Expr Rule} {offset : Nat}
    {read rest : List Char} {trace : List (Match Rule)}
    (derives : Derives documentGrammar mode e offset read rest trace)
    (trivial : ∀ name ∈ e.rules, name.isTrivia = true) : Forest.ofMatches trace = .nil := by
  induction derives with
  | empty | start | finish | char | literal | stop | absent => exact ofMatches_nil
  | @traced _ name offset read rest inside _ _ ih =>
    have called : name.isTrivia = true := trivial name (by simp [Peg.Expr.rules])
    rw [Forest.ofMatches_singleton_of_trivia called]
    exact ih (Rule.rules_body_of_isTrivia called)
  | @untraced _ name offset read rest inside _ _ ih =>
    have called : name.isTrivia = true := trivial name (by simp [Peg.Expr.rules])
    exact ih (Rule.rules_body_of_isTrivia called)
  | tight _ _ _ first second =>
    simp only [Peg.Expr.rules, List.mem_append, or_imp, forall_and] at trivial
    rw [Forest.ofMatches_append, first trivial.1, second trivial.2]
    rfl
  | loose _ _ _ first between second =>
    simp only [Peg.Expr.rules, List.mem_append, or_imp, forall_and] at trivial
    rw [Forest.ofMatches_append, Forest.ofMatches_append, first trivial.1, second trivial.2,
      between (by decide)]
    rfl
  | left _ ih =>
    simp only [Peg.Expr.rules, List.mem_append, or_imp, forall_and] at trivial
    exact ih trivial.1
  | right _ _ ih =>
    simp only [Peg.Expr.rules, List.mem_append, or_imp, forall_and] at trivial
    exact ih trivial.2
  | round _ _ first second =>
    rw [Forest.ofMatches_append, first trivial, second trivial]
    rfl

/-- The nodes that a derivation makes are of kinds that its expression allows. -/
theorem Generates.of_derives {mode : Mode} {e : Expr Rule} {offset : Nat}
    {read rest : List Char} {trace : List (Match Rule)}
    (derives : Derives documentGrammar mode e offset read rest trace) :
    Generates mode e (Forest.ofMatches trace).kinds := by
  induction derives with
  | empty =>
    rw [Forest.ofMatches_nil]
    exact .empty
  | start =>
    rw [Forest.ofMatches_nil]
    exact .start
  | finish =>
    rw [Forest.ofMatches_nil]
    exact .finish
  | char =>
    rw [Forest.ofMatches_nil]
    exact .char
  | literal =>
    rw [Forest.ofMatches_nil]
    exact .literal
  | absent =>
    rw [Forest.ofMatches_nil]
    exact .not
  | stop =>
    rw [Forest.ofMatches_nil]
    exact .stop
  | @traced _ name offset read rest inside traces body _ =>
    by_cases trivial : (Kind.ofRule name).isTrivia = true
    · -- What is inside trivia would stand in its place, but there is nothing.
      have nothing := Forest.ofMatches_eq_nil_of_derives body (Rule.rules_body_of_isTrivia trivial)
      rw [Forest.ofMatches_singleton_of_trivia trivial, nothing]
      exact .trivia trivial
    · rw [Forest.ofMatches_singleton_of_not_trivia trivial]
      exact .node (Bool.eq_false_iff.mpr trivial) traces
  | untraced silent _ ih => exact .inlined silent ih
  | tight _ _ _ first second =>
    rw [Forest.ofMatches_append, Forest.kinds_append]
    exact .seq first second
  | loose _ between _ first _ second =>
    rw [Forest.ofMatches_append, Forest.ofMatches_append,
      Forest.ofMatches_eq_nil_of_derives between (by decide), Forest.kinds_append]
    exact .seq first second
  | left _ ih => exact .left ih
  | right _ _ ih => exact .right ih
  | round _ _ first second =>
    rw [Forest.ofMatches_append, Forest.kinds_append]
    exact .round first second

/-- A rule called outside of atomic mode leaves a trace. -/
theorem Peg.Modifier.outer_ne_atomic {mode : Mode} (modifier : Peg.Modifier)
    (traces : mode ≠ .atomic) : modifier.outer mode ≠ .atomic := by
  cases modifier with
  | compound => simp [Peg.Modifier.outer]
  | plain | atomic => exact traces

/-- Outside of atomic mode it makes no difference whether trivia may stand between
the items. -/
theorem Generates.loose {mode : Mode} {e : Expr Rule} {kinds : List Kind}
    (generates : Generates mode e kinds) (traces : mode ≠ .atomic) : Generates .loose e kinds := by
  induction generates with
  | empty => exact .empty
  | start => exact .start
  | finish => exact .finish
  | char => exact .char
  | literal => exact .literal
  | not => exact .not
  | trivia trivial => exact .trivia trivial
  | @node _ name counts _ => exact .node counts (name.modifier.outer_ne_atomic (by decide))
  | @inlined _ name _ silent _ _ => exact absurd silent (name.modifier.outer_ne_atomic traces)
  | seq _ _ first second => exact .seq (first traces) (second traces)
  | left _ ih => exact .left (ih traces)
  | right _ ih => exact .right (ih traces)
  | stop => exact .stop
  | round _ _ first second => exact .round (first traces) (second traces)

/-! ## What a body demands and admits -/

/-- Whether every row of kinds that the expression generates has one of these. -/
def Peg.Expr.demands (wanted : List Kind) : Expr Rule → Bool
  | .rule name => wanted.contains (.ofRule name) && !(Kind.ofRule name).isTrivia
  | .seq _ first second => first.demands wanted || second.demands wanted
  | .choice first second => first.demands wanted && second.demands wanted
  | _ => false

/-- An expression that demands one of the wanted kinds leaves one behind in every list of
children. -/
theorem Generates.exists_mem_of_demands {mode : Mode} {e : Expr Rule} {kinds wanted : List Kind}
    (generates : Generates mode e kinds) (traces : mode ≠ .atomic)
    (demands : e.demands wanted = true) : ∃ kind ∈ kinds, kind ∈ wanted := by
  induction generates with
  | empty | start | finish | char | literal | not | stop | round => cases demands
  | trivia trivial => simp [Peg.Expr.demands, trivial] at demands
  | node counts _ =>
    simp only [Peg.Expr.demands, Bool.and_eq_true, List.contains_iff_mem] at demands
    exact ⟨_, List.mem_singleton_self _, demands.1⟩
  | @inlined _ name _ silent _ _ => exact absurd silent (name.modifier.outer_ne_atomic traces)
  | seq _ _ first second =>
    simp only [Peg.Expr.demands, Bool.or_eq_true] at demands
    rcases demands with front | behind
    · obtain ⟨kind, member, found⟩ := first traces front
      exact ⟨kind, List.mem_append_left _ member, found⟩
    · obtain ⟨kind, member, found⟩ := second traces behind
      exact ⟨kind, List.mem_append_right _ member, found⟩
  | left _ ih =>
    simp only [Peg.Expr.demands, Bool.and_eq_true] at demands
    exact ih traces demands.1
  | right _ ih =>
    simp only [Peg.Expr.demands, Bool.and_eq_true] at demands
    exact ih traces demands.2

/-- A kind that is no trivia has one rule. -/
theorem Rule.eq_of_ofRule_eq {name other : Rule} (same : Kind.ofRule name = Kind.ofRule other)
    (notable : (Kind.ofRule name).isTrivia = false) : name = other := by
  have checked : ∀ name ∈ Rule.all, (Kind.ofRule name).isTrivia = false →
      Rule.all.find? (fun rule => Kind.ofRule rule = Kind.ofRule name) = some name := by
    decide
  have left := checked name (mem_all name) notable
  have right := checked other (mem_all other) (same ▸ notable)
  rw [same] at left
  exact Option.some.inj (left.symm.trans right)

/-- The rules that ids are made of, none of which leaves a trace inside an atomic
word but the identifier. -/
def Rule.idParts : List Rule := [.identifier, .namespaceName, .absoluteRootShapeId, .shapeId]

/-- Rules that ids are made of call only such rules, down to the identifier. -/
theorem Rule.rules_body_of_mem_idParts {name : Rule} (id : name ∈ Rule.idParts) :
    name = .identifier ∨ ∀ part ∈ name.body.rules, part ∈ Rule.idParts := by
  have checked : ∀ name ∈ Rule.idParts,
      name = .identifier ∨ ∀ part ∈ name.body.rules, part ∈ Rule.idParts := by
    decide
  exact checked name id

/-- Inside an atomic word made of ids there are identifiers only. -/
theorem Generates.eq_identifier {e : Expr Rule} {kinds : List Kind}
    (generates : Generates .atomic e kinds) (ids : ∀ name ∈ e.rules, name ∈ Rule.idParts) :
    ∀ kind ∈ kinds, kind = .identifier := by
  generalize word : Mode.atomic = mode at generates
  induction generates with
  | empty | start | finish | char | literal | not | stop | trivia =>
    intro kind member
    cases member
  | @node mode name counts traces =>
    subst word
    have id : name ∈ Rule.idParts := ids name (by simp [Peg.Expr.rules])
    intro kind member
    rw [List.mem_singleton.mp member]
    simp only [Rule.idParts, List.mem_cons, List.not_mem_nil, or_false] at id
    rcases id with rfl | rfl | rfl | rfl
    · rfl
    · exact absurd rfl traces
    · exact absurd rfl traces
    · exact absurd rfl traces
  | @inlined mode name kinds silent _ ih =>
    subst word
    have id : name ∈ Rule.idParts := ids name (by simp [Peg.Expr.rules])
    rcases Rule.rules_body_of_mem_idParts id with rfl | parts
    · cases silent
    · refine ih parts ?_
      cases modifier : name.modifier with
      | compound => simp [modifier, Peg.Modifier.outer] at silent
      | plain | atomic => rfl
  | seq _ _ first second =>
    simp only [Peg.Expr.rules, List.mem_append, or_imp, forall_and] at ids
    intro kind member
    rcases List.mem_append.mp member with front | behind
    · exact first ids.1 word kind front
    · exact second ids.2 word kind behind
  | left _ ih =>
    simp only [Peg.Expr.rules, List.mem_append, or_imp, forall_and] at ids
    exact ih ids.1 word
  | right _ ih =>
    simp only [Peg.Expr.rules, List.mem_append, or_imp, forall_and] at ids
    exact ih ids.2 word
  | round _ _ first second =>
    intro kind member
    rcases List.mem_append.mp member with front | behind
    · exact first ids word kind front
    · exact second ids word kind behind

end ServiceIdl
