import ServiceIdl.Proofs.Syntax.Parts

/-!
# The characters of words

Where there is no trivia, an expression reads what its classes and its literals allow
and nothing else. An `Alphabet` says what is allowed, for characters, for classes and
for rules; that the rules keep to it is decided on their bodies (`Alphabet.Closed`),
and then every derivation from them keeps to it (`Peg.Derives.allows`).

`nameAlphabet` is the alphabet of identifiers and namespaces. It has no number sign,
so an id has at most the one that parts its namespace from its name.
-/

namespace ServiceIdl

open Peg (Expr Mode Derives Match CharClass Grammar)

namespace Peg

variable {ρ : Type}

/-- What may be read: which characters, which classes and which rules. -/
structure Alphabet (ρ : Type) where
  allows : Char → Bool
  classes : CharClass → Bool
  rules : ρ → Bool

/-- Whether an expression uses what the alphabet has. Lookaheads read nothing. -/
def Expr.within (a : Alphabet ρ) : Expr ρ → Bool
  | .char members => a.classes members
  | .literal text => text.all a.allows
  | .rule name => a.rules name
  | .seq _ first second | .choice first second => first.within a && second.within a
  | .star round => round.within a
  | .empty | .start | .finish | .not _ => true

/-- The classes and the rules of the alphabet keep to its characters. -/
structure Alphabet.Closed (g : Grammar ρ) (a : Alphabet ρ) : Prop where
  classes : ∀ members c, a.classes members = true → members.contains c = true →
    a.allows c = true
  rules : ∀ name, a.rules name = true → (g.body name).within a = true

/-- Outside of loose mode no rule turns the trivia on. -/
theorem Modifier.inner_ne_loose {modifier : Modifier} {mode : Mode} (dense : mode ≠ .loose) :
    modifier.inner mode ≠ .loose := by
  cases modifier with
  | plain => exact dense
  | atomic | compound => simp [Modifier.inner]

/-- What is derived without trivia keeps to the alphabet. -/
theorem Derives.allows {g : Grammar ρ} {a : Alphabet ρ} (closed : a.Closed g) {mode : Mode}
    {e : Expr ρ} {offset : Nat} {read rest : List Char} {trace : List (Match ρ)}
    (derives : Derives g mode e offset read rest trace) (dense : mode ≠ .loose)
    (within : e.within a = true) : ∀ c ∈ read, a.allows c = true := by
  induction derives with
  | empty | start | finish | stop | absent => simp
  | char member =>
    intro c here
    rw [List.mem_singleton.mp here]
    exact closed.classes _ _ within member
  | literal =>
    intro c here
    exact List.all_eq_true.mp within c here
  | traced _ _ ih | untraced _ _ ih =>
    exact ih (Modifier.inner_ne_loose dense) (closed.rules _ within)
  | tight _ _ _ first second =>
    rw [Expr.within, Bool.and_eq_true] at within
    intro c here
    rcases List.mem_append.mp here with front | behind
    · exact first dense within.1 c front
    · exact second dense within.2 c behind
  | loose => exact absurd rfl dense
  | left _ ih =>
    rw [Expr.within, Bool.and_eq_true] at within
    exact ih dense within.1
  | right _ _ ih =>
    rw [Expr.within, Bool.and_eq_true] at within
    exact ih dense within.2
  | round _ _ first second =>
    intro c here
    rcases List.mem_append.mp here with front | behind
    · exact first dense within c front
    · exact second dense within c behind

end Peg

/-- A node of a rule that bars trivia keeps to an alphabet that has the rule. -/
theorem Tree.IsMatch.allows {a : Peg.Alphabet Rule} (closed : a.Closed documentGrammar)
    {text : List Char} {node : Tree} (stands : node.IsMatch text) {name : Rule}
    (kind : node.kind = .ofRule name) (dense : name.modifier ≠ .plain)
    (allowed : a.rules name = true) : ∀ c ∈ node.text.toList, a.allows c = true := by
  rcases stands with ⟨found, mode, rest, trace, same, notable, -, -, body, -⟩
  rw [← same] at notable
  have agree : found = name := Rule.eq_of_ofRule_eq (same.trans kind) notable
  rw [agree] at body
  refine body.allows closed ?_ (closed.rules name allowed)
  cases modifier : name.modifier with
  | plain => exact absurd modifier dense
  | atomic | compound => simp [Peg.Modifier.inner]

/-- A part of a category with one such rule keeps to the alphabet. -/
theorem View.allows {a : Peg.Alphabet Rule} (closed : a.Closed documentGrammar)
    {text : List Char} {c : Category} {v : View c} (part : v.tree.IsPart text) (name : Rule)
    (kinds : c.kinds = [.ofRule name]) (dense : name.modifier ≠ .plain)
    (allowed : a.rules name = true) : ∀ ch ∈ v.text.toList, a.allows ch = true := by
  have kind : v.tree.kind = .ofRule name := by
    have accepted := v.accepted
    rw [kinds] at accepted
    exact List.mem_singleton.mp accepted
  exact (part v.tree .self (Category.isNode_of_mem_kinds v.accepted)).allows closed kind dense
    allowed

/-! ## Names -/

/-- The letters, digits, underscores and points of identifiers and namespaces. -/
def nameAlphabet : Peg.Alphabet Rule where
  allows c := c.isAlphanum || c = '_' || c = '.'
  classes members := members != .any
  rules name := [.identifier, .identifierStart, .identifierChars, .namespaceName].contains name

/-- The classes of names have no other characters, and their rules call only one another. -/
theorem nameAlphabet_closed : nameAlphabet.Closed documentGrammar where
  classes := by
    intro members c has member
    cases members with
    | any => cases has
    | digit | letter =>
      simp only [CharClass.contains] at member
      simp [nameAlphabet, Char.isAlphanum, member]
    | letterOrDigit =>
      simp only [CharClass.contains] at member
      simp [nameAlphabet, member]
  rules := by
    intro name
    cases name <;> decide

/-- A namespace has no number sign. -/
theorem numberSign_not_mem_of_namespaceName {text : List Char} {space : NamespaceName}
    (part : space.tree.IsPart text) : '#' ∉ space.text.toList := by
  intro present
  have allowed := View.allows nameAlphabet_closed part .namespaceName rfl (by decide) (by decide)
    '#' present
  cases allowed

/-- An identifier has no number sign. -/
theorem numberSign_not_mem_of_identifier {text : List Char} {name : Identifier}
    (part : name.tree.IsPart text) : '#' ∉ name.text.toList := by
  intro present
  have allowed := View.allows nameAlphabet_closed part .identifier rfl (by decide) (by decide)
    '#' present
  cases allowed

end ServiceIdl
