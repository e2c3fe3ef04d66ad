import Mathlib.Data.List.Pairwise
import ServiceIdl.Proofs.Grammar.Rank
import ServiceIdl.Proofs.Syntax.Parts

/-!
# Which part of a document is inside which

Of two parts of a tree that cover one byte, one is inside the other
(`Tree.Sits.occurs_or_occurs`). Which of them is the outer one can often be told by their
kinds: inside a node of one of some rules that call no others there are only nodes of these
rules (`Tree.IsPart.kind_of_occurs`).
-/

namespace ServiceIdl

open Peg (Expr Mode)

/-! ## Places -/

/-- The span has the byte at this offset. -/
def Span.Covers (span : Span) (offset : Nat) : Prop := span.start ≤ offset ∧ offset < span.stop

namespace Tree

theorem Occurs.child {tree child root : Tree} (occurs : tree.Occurs root)
    (member : child ∈ tree.children) : child.Occurs root :=
  Occurs.trans (.inside member .self) occurs

/-- The trees that stand so many levels below a tree. -/
def level : Nat → Tree → List Tree
  | 0, tree => [tree]
  | n + 1, tree => tree.children.flatMap (level n)

/-- What is found on a level of the tree occurs in it. -/
theorem occurs_of_mem_level {n : Nat} {part tree : Tree} (member : part ∈ tree.level n) :
    part.Occurs tree := by
  induction n generalizing tree with
  | zero =>
    cases List.mem_singleton.mp member
    exact .self
  | succ n ih =>
    obtain ⟨child, inside, below⟩ := List.mem_flatMap.mp member
    exact .inside inside (ih below)

theorem isNode_of_mem_children {tree child : Tree} (member : child ∈ tree.children) :
    tree.isNode = true := by
  cases tree with
  | token => cases member
  | node => rfl

namespace Sits

variable {text : List Char} {tree first second : Tree} {offset : Nat}

/-- A tree covers what its parts cover. -/
theorem covers (sits : tree.Sits text) (occurs : first.Occurs tree)
    (here : first.span.Covers offset) : tree.span.Covers offset := by
  induction occurs with
  | self => exact here
  | @inside tree child member _ ih =>
    have inner := ih (sits.of_occurs (.inside member .self))
    obtain ⟨start, stop⟩ := (sits.tiles (isNode_of_mem_children member)).pairwise.2 child member
    exact ⟨Nat.le_trans start inner.1, Nat.lt_of_lt_of_le inner.2 stop⟩

/-- No two children cover one byte. -/
theorem eq_of_covers (sits : tree.Sits text) (member : first ∈ tree.children)
    (member' : second ∈ tree.children) (here : first.span.Covers offset)
    (here' : second.span.Covers offset) : first = second := by
  have behind := (sits.tiles (isNode_of_mem_children member)).pairwise.1
  by_contra different
  have symmetric : Std.Symm fun a b : Tree =>
      ¬ (a.span.Covers offset ∧ b.span.Covers offset) := ⟨fun _ _ none both => none both.symm⟩
  have apart : tree.children.Pairwise fun a b =>
      ¬ (a.span.Covers offset ∧ b.span.Covers offset) := by
    refine behind.imp fun later both => ?_
    obtain ⟨⟨-, before⟩, ⟨after, -⟩⟩ := both
    omega
  exact apart.forall member member' different ⟨here, here'⟩

/-- Of two parts that cover one byte, one is inside the other. -/
theorem occurs_or_occurs (sits : tree.Sits text) (occurs : first.Occurs tree)
    (occurs' : second.Occurs tree) (here : first.span.Covers offset)
    (here' : second.span.Covers offset) : first.Occurs second ∨ second.Occurs first := by
  induction occurs with
  | self => exact .inr occurs'
  | @inside tree child member inner ih =>
    cases occurs' with
    | self => exact .inl (.inside member inner)
    | @inside _ child' member' inner' =>
      have childSits := sits.of_occurs (.inside member .self)
      have childSits' := sits.of_occurs (.inside member' .self)
      have same := sits.eq_of_covers member member' (childSits.covers inner here)
        (childSits'.covers inner' here')
      subst same
      exact ih childSits inner'

end Sits

/-- A node of a rule that reads covers the byte at its start. -/
theorem IsMatch.covers_start {text : List Char} {node : Tree} (stands : node.IsMatch text)
    (sits : node.Sits text) {name : Rule} (kind : node.kind = .ofRule name)
    (reads : name.reads = true) : node.span.Covers node.span.start := by
  obtain ⟨_, _, _, -, stop⟩ := sits.holds
  rcases stands with ⟨found, mode, rest, trace, same, notable, -, -, body, -⟩
  rw [← same] at notable
  have agree : found = name := Rule.eq_of_ofRule_eq (same.trans kind) notable
  subst agree
  have filled := body.ne_nil_of_reads documentRanking.reads_body
    (documentRanking.reads_body _ reads)
  have some : Text.byteLength node.text.toList ≠ 0 := fun none =>
    filled (Text.byteLength_eq_zero.mp none)
  exact ⟨Nat.le_refl _, by omega⟩

end Tree

/-! ## Kinds -/

/-- The rules call no others. -/
def Rule.Closed (rules : List Rule) : Prop :=
  ∀ name ∈ rules, ∀ part ∈ name.body.rules, part ∈ rules

instance (rules : List Rule) : Decidable (Rule.Closed rules) :=
  inferInstanceAs (Decidable (∀ name ∈ rules, ∀ part ∈ name.body.rules, part ∈ rules))

/-- Where only some rules are called, and these call no others, there are only nodes of these
rules. -/
theorem Generates.of_closed {rules : List Rule} (closed : Rule.Closed rules) {mode : Mode}
    {e : Expr Rule} {kinds : List Kind} (generates : Generates mode e kinds)
    (called : ∀ name ∈ e.rules, name ∈ rules) : ∀ kind ∈ kinds, kind ∈ rules.map Kind.ofRule := by
  induction generates with
  | empty | start | finish | char | literal | not | stop | trivia => exact List.forall_mem_nil _
  | node =>
    intro kind member
    rw [List.mem_singleton.mp member]
    exact List.mem_map_of_mem (called _ (List.mem_singleton_self _))
  | inlined _ _ ih => exact ih (closed _ (called _ (List.mem_singleton_self _)))
  | seq _ _ first second =>
    simp only [Peg.Expr.rules, List.mem_append, or_imp, forall_and] at called
    exact List.forall_mem_append.mpr ⟨first called.1, second called.2⟩
  | left _ ih =>
    simp only [Peg.Expr.rules, List.mem_append, or_imp, forall_and] at called
    exact ih called.1
  | right _ ih =>
    simp only [Peg.Expr.rules, List.mem_append, or_imp, forall_and] at called
    exact ih called.2
  | round _ _ first second => exact List.forall_mem_append.mpr ⟨first called, second called⟩

/-- What is inside of a part of a document is one. -/
theorem Tree.IsPart.of_occurs {text : List Char} {tree node : Tree} (part : tree.IsPart text)
    (occurs : node.Occurs tree) : node.IsPart text :=
  fun inner within isNode => part inner (within.trans occurs) isNode

/-- Where the rules that a node's rule calls are among some rules that call no others, so are the
rules of its children. -/
theorem Tree.IsPart.kind_of_mem_children {text : List Char} {rules : List Rule}
    (closed : Rule.Closed rules) {tree child : Tree} (part : tree.IsPart text)
    (member : child ∈ tree.children) (isNode : child.isNode = true)
    (called : ∀ name, Kind.ofRule name = tree.kind → ∀ callee ∈ name.body.rules, callee ∈ rules) :
    child.kind ∈ rules.map Kind.ofRule := by
  obtain ⟨name, same, generated⟩ := (part tree .self (isNode_of_mem_children member)).generates
  refine generated.of_closed closed (called name same) _ (List.mem_map_of_mem ?_)
  exact List.mem_filter.mpr ⟨member, isNode⟩

/-- Inside a node of one of some rules that call no others, all nodes are of these rules. -/
theorem Tree.IsPart.kind_of_occurs {text : List Char} {rules : List Rule}
    (closed : Rule.Closed rules) {tree node : Tree} (part : tree.IsPart text)
    (occurs : node.Occurs tree) (isNode : node.isNode = true)
    (kind : tree.kind ∈ rules.map Kind.ofRule) : node.kind ∈ rules.map Kind.ofRule := by
  induction occurs with
  | self => exact kind
  | @inside tree child member inner ih =>
    have childIsNode : child.isNode = true := by
      cases inner with
      | self => exact isNode
      | inside member' _ => exact isNode_of_mem_children member'
    refine ih (part.child member) (part.kind_of_mem_children closed member childIsNode ?_)
    intro name same
    obtain ⟨name', listed, same'⟩ := List.mem_map.mp kind
    have notable := (part tree .self (isNode_of_mem_children member)).notable
    rw [← same] at notable
    rw [Rule.eq_of_ofRule_eq (same.trans same'.symm) notable]
    exact closed name' listed

/-! ## Nodes that are apart -/

/-- The rules of the kinds `outer` call, directly or through others, only rules of `below`, and
none of the kinds `inner` is of these. So no node of an inner kind is inside one of an outer. -/
structure Kind.Bars (below : List Rule) (outer inner : List Kind) : Prop where
  called : ∀ name ∈ Rule.all, Kind.ofRule name ∈ outer → ∀ callee ∈ name.body.rules, callee ∈ below
  closed : Rule.Closed below
  absent : ∀ kind ∈ inner, kind ∉ below.map Kind.ofRule
  nodes : Kind.text ∉ inner

instance (below : List Rule) (outer inner : List Kind) : Decidable (Kind.Bars below outer inner) :=
  decidable_of_iff
    ((∀ name ∈ Rule.all, Kind.ofRule name ∈ outer → ∀ callee ∈ name.body.rules, callee ∈ below) ∧
      Rule.Closed below ∧ (∀ kind ∈ inner, kind ∉ below.map Kind.ofRule) ∧ Kind.text ∉ inner)
    ⟨fun ⟨called, closed, absent, nodes⟩ => ⟨called, closed, absent, nodes⟩,
      fun bars => ⟨bars.called, bars.closed, bars.absent, bars.nodes⟩⟩

/-- Tokens are the only trees with the kind of text. -/
theorem Tree.isNode_of_kind_ne {tree : Tree} (other : tree.kind ≠ .text) : tree.isNode = true := by
  cases tree with
  | token => exact absurd rfl other
  | node => rfl

/-- A node of an inner kind occurs in one of an outer only as this node itself. -/
theorem Kind.Bars.eq_of_occurs {below : List Rule} {outer inner : List Kind}
    (bars : Kind.Bars below outer inner) {text : List Char} {tree node : Tree}
    (part : tree.IsPart text) (occurs : node.Occurs tree) (kind : tree.kind ∈ outer)
    (kind' : node.kind ∈ inner) : node = tree := by
  cases occurs with
  | self => rfl
  | @inside _ child member within =>
    have isNode : node.isNode = true :=
      Tree.isNode_of_kind_ne fun same => bars.nodes (same ▸ kind')
    have childIsNode : child.isNode = true := by
      cases within with
      | self => exact isNode
      | inside member' _ => exact Tree.isNode_of_mem_children member'
    have below := part.kind_of_mem_children bars.closed member childIsNode fun name same =>
      bars.called name (Rule.mem_all name) (same ▸ kind)
    exact absurd ((part.child member).kind_of_occurs bars.closed within isNode below)
      (bars.absent _ kind')

/-- Nodes of kinds that bar each other do not cover one byte, unless they are the same. -/
theorem Kind.Bars.eq_of_covers {below below' : List Rule} {outer inner : List Kind}
    (bars : Kind.Bars below outer inner) (bars' : Kind.Bars below' inner outer)
    {text : List Char} {root first second : Tree} (document : root.IsDocument text)
    (occurs : first.Occurs root) (occurs' : second.Occurs root) (kind : first.kind ∈ outer)
    (kind' : second.kind ∈ inner) {offset : Nat} (here : first.span.Covers offset)
    (here' : second.span.Covers offset) : first = second := by
  rcases document.sits.occurs_or_occurs occurs occurs' here here' with within | within
  · exact bars'.eq_of_occurs (document.isPart.of_occurs occurs') within kind' kind
  · exact (bars.eq_of_occurs (document.isPart.of_occurs occurs) within kind kind').symm

/-- The rules of the kinds read a character wherever they match. -/
def Kind.Read (kinds : List Kind) : Prop :=
  ∀ kind ∈ kinds, ∃ name ∈ Rule.all, kind = .ofRule name ∧ name.reads = true

instance (kinds : List Kind) : Decidable (Kind.Read kinds) :=
  inferInstanceAs
    (Decidable (∀ kind ∈ kinds, ∃ name ∈ Rule.all, kind = .ofRule name ∧ name.reads = true))

namespace View

variable {text : List Char} {root : Tree} {c : Category} {v w : View c}

/-- A node whose rules read a character covers where it starts. -/
theorem covers_start (document : root.IsDocument text) (occurs : v.tree.Occurs root)
    (read : Kind.Read c.kinds) : v.span.Covers v.span.start := by
  obtain ⟨name, -, kind, reads⟩ := read _ v.accepted
  exact (document.isMatch _ occurs (Category.isNode_of_mem_kinds v.accepted)).covers_start
    (document.sits.of_occurs occurs) kind reads

/-- Where nodes of a category are not inside each other, the span tells the node. -/
theorem eq_of_span_eq {below : List Rule} (bars : Kind.Bars below c.kinds c.kinds)
    (read : Kind.Read c.kinds) (document : root.IsDocument text) (occurs : v.tree.Occurs root)
    (occurs' : w.tree.Occurs root) (same : v.span = w.span) : v = w := by
  have here := covers_start document occurs read
  have here' : w.span.Covers v.span.start := same ▸ here
  exact View.ext (bars.eq_of_covers bars document occurs occurs' v.accepted w.accepted here here')

end View

end ServiceIdl
