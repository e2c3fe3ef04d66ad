import ServiceIdl.Proofs.Grammar.Lexicon
import ServiceIdl.Proofs.Outcome
import ServiceIdl.Syntax.Section

/-!
# Parts of documents

A part of a document is a tree whose nodes stand for matches of rules. What a rule
demands of its children is there in every part (`View.gives_required`), and what a
word must look like it does look like; so no reading of a part has a defect. Views
go from parts to parts, and whether the rule of a category guarantees a child can
be decided on its body (`Category.guarantees`).
-/

namespace ServiceIdl

open Outcome (Gives)

namespace Tree

/-- A part of a document: it and all nodes inside it stand for matches of rules. -/
def IsPart (text : List Char) (tree : Tree) : Prop :=
  ∀ part, Occurs part tree → part.isNode = true → part.IsMatch text

theorem IsDocument.isPart {text : List Char} {tree : Tree} (document : tree.IsDocument text) :
    tree.IsPart text :=
  document.isMatch

theorem IsPart.child {text : List Char} {tree child : Tree} (part : tree.IsPart text)
    (member : child ∈ tree.children) : child.IsPart text := by
  intro node occurs isNode
  exact part node (occurs.trans (.inside member .self)) isNode

end Tree

/-! ## Children that a category guarantees -/

namespace Category

/-- Whether every row of children of a node of the category has one of these kinds. -/
def demands (c : Category) (wanted : List Kind) : Bool :=
  Rule.all.all fun name =>
    !c.kinds.contains (.ofRule name) ||
      (name.modifier.inner .loose != .atomic && name.body.demands wanted)

/-- Whether every node of the category has a child of the other. -/
def guarantees (c d : Category) : Bool := c.demands d.kinds

theorem isNode_of_mem_kinds {c : Category} {tree : Tree} (accepted : tree.kind ∈ c.kinds) :
    tree.isNode = true := by
  cases tree with
  | token span text =>
    have checked : Kind.text ∉ c.kinds := by cases c <;> decide
    exact absurd accepted checked
  | node => rfl

end Category

namespace View

variable {text : List Char} {c d : Category}

/-- A part has a child of one of the kinds that its category demands. -/
theorem exists_child {v : View c} (part : v.tree.IsPart text) {wanted : List Kind}
    (demands : c.demands wanted = true) :
    ∃ child ∈ v.tree.children, child.kind ∈ wanted ∧ child.IsPart text := by
  have isNode := Category.isNode_of_mem_kinds v.accepted
  obtain ⟨name, kind, generated⟩ := (part v.tree .self isNode).generates
  have accepted : c.kinds.contains (.ofRule name) = true := by
    rw [kind]
    exact List.contains_iff_mem.mpr v.accepted
  have demanded := List.all_eq_true.mp demands name (Rule.mem_all name)
  rw [accepted, Bool.not_true, Bool.false_or, Bool.and_eq_true] at demanded
  rcases demanded with ⟨traces, ruled⟩
  obtain ⟨kind, member, found⟩ :=
    generated.exists_mem_of_demands (bne_iff_ne.mp traces) ruled
  obtain ⟨child, present, rfl⟩ := List.mem_map.mp member
  have inside := (List.mem_filter.mp present).1
  exact ⟨child, inside, found, part.child inside⟩

theorem isPart_of_optional {v : View c} (part : v.tree.IsPart text) {child : View d}
    (found : v.optional d = some child) : child.tree.IsPart text :=
  part.child (mem_children_of_optional found)

theorem isPart_of_required {v : View c} (part : v.tree.IsPart text) {child : View d}
    (read : v.required d = .ok child) : child.tree.IsPart text :=
  part.child (mem_children_of_required read)

theorem isPart_of_mem_many {v : View c} (part : v.tree.IsPart text) {child : View d}
    (member : child ∈ v.many d) : child.tree.IsPart text :=
  part.child (mem_children_of_mem_many member)

/-- The first child of a category is absent only if no child is of the category. -/
theorem kind_of_optional_eq_none {v : View c} (absent : v.optional d = none) :
    ∀ child ∈ v.tree.children, child.kind ∉ d.kinds := by
  intro child member
  exact of?_eq_none_iff.mp (List.findSome?_eq_none_iff.mp absent child member)

/-- A part has the children that its category guarantees, and they are parts. -/
theorem gives_required {v : View c} (part : v.tree.IsPart text)
    (guaranteed : c.guarantees d = true) :
    Gives (v.required d) fun child => child.tree.IsPart text := by
  unfold required
  cases found : v.optional d with
  | some child => exact .ok (isPart_of_optional part found)
  | none =>
    obtain ⟨child, member, kind, -⟩ := exists_child part guaranteed
    exact absurd kind (kind_of_optional_eq_none found child member)

/-- A part of a category with one rule has the form of the words of the rule. -/
theorem exists_form {v : View c} (part : v.tree.IsPart text) (name : Rule)
    (kinds : c.kinds = [.ofRule name]) : ∃ behind, name.HasForm v.text.toList behind := by
  have kind : v.tree.kind = .ofRule name := by
    have accepted := v.accepted
    rw [kinds] at accepted
    exact List.mem_singleton.mp accepted
  have stands := part v.tree .self (Category.isNode_of_mem_kinds v.accepted)
  obtain ⟨behind, -, form⟩ := stands.exists_form
  exact ⟨behind, form name kind.symm⟩

end View

/-- A document is its tree. -/
theorem Idl.ofTree_eq_ok_iff {tree : Tree} {idl : Idl} :
    Idl.ofTree tree = .ok idl ↔ idl.tree = tree := by
  unfold Idl.ofTree
  cases viewed : View.of? .idl tree with
  | none =>
    constructor
    · intro same
      cases same
    · intro same
      rw [View.of?_eq_some_iff.mpr same] at viewed
      cases viewed
  | some found =>
    rw [← View.of?_eq_some_iff, viewed]
    constructor
    · intro same
      cases same
      rfl
    · intro same
      cases same
      rfl

/-! ## Forms are views of the same tree -/

/-- The tree behind a form. -/
def ShapeDecl.Form.tree : ShapeDecl.Form → Tree
  | .simple v => v.tree
  | .enum v => v.tree
  | .aggregate v => v.tree
  | .entity v => v.tree
  | .operation v => v.tree

/-- The form of a declaration is over the same tree. -/
theorem ShapeDecl.tree_form (decl : ShapeDecl) : (ShapeDecl.form decl).tree = decl.tree := by
  unfold ShapeDecl.form
  repeat' split
  all_goals rfl

/-- The tree behind a form. -/
def MemberDecl.Form.tree : MemberDecl.Form → Tree
  | .explicit v => v.tree
  | .elided v => v.tree

theorem MemberDecl.tree_form (decl : MemberDecl) : (MemberDecl.form decl).tree = decl.tree := by
  unfold MemberDecl.form
  split
  · rfl
  · rfl

/-- The tree behind a form. -/
def OperationTarget.Form.tree : OperationTarget.Form → Tree
  | .inline v => v.tree
  | .named v => v.tree

theorem OperationTarget.tree_form (target : OperationTarget) :
    (OperationTarget.form target).tree = target.tree := by
  unfold OperationTarget.form
  split
  · rfl
  · rfl

/-- The tree behind a form. -/
def NodeStringValue.Form.tree : NodeStringValue.Form → Tree
  | .block v => v.tree
  | .quoted v => v.tree
  | .shapeId v => v.tree

theorem StringValueKind.tree_form (v : StringValueKind) :
    (StringValueKind.form v).tree = v.tree := by
  unfold StringValueKind.form
  repeat' split
  all_goals rfl

end ServiceIdl
